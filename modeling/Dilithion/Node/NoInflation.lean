import Dilithion.Node.ChainLaws
import Dilithion.Node.UtxoCounters
import Dilithion.Consensus.BatchAgreement

/-! Where new value comes from. The coinbase phase of `ProcessNewBlock` computes the fees of a block on the set
that the tip left, and if it can compute them all it bounds the coinbase by the subsidy and the fees. So if every
block comes on the tip, with all its fees computable there, each conserves value above the ledger of its
ancestors, and the set never holds more than the first block and the subsidies have issued. Nothing else guards
the value: a fee that cannot be computed puts the check off to `ConnectTip`, and `ConnectTip` does not make it. -/

namespace Dilithion

open Lib Lib.Ledger CUTXOEntry ChainEvent List

/-- The fees of transactions applied one after the other, with every input unspent at its turn. -/
def txFees (H : HashFunctions) (height : UInt32) : UTXOLedger → List CTransaction → Option (List Int)
  | _, [] => some []
  | now, tx :: rest =>
    (spentRecords (fun _ => none) now (txEvents H height false tx)).bind fun spent =>
      (txFees H height (run now (txEvents H height false tx)) rest).map fun fees =>
        ((totalWeight worth spent : Int) - totalPaid tx) :: fees

def subsidyAt (env : Env) (height : Int) : Nat :=
  (CBlockValidator.calculateBlockSubsidy env.params (UInt32.ofInt height)).toNat

/-- The fees are exact and not negative, and the coinbase pays out at most the subsidy and the fees. -/
def Conserves (env : Env) (ledger : UTXOLedger) (block : CBlock) (height : Int) : Prop :=
  ∃ coinbase rest fees, blockTransactions block = coinbase :: rest ∧
    txFees env.hashes (UInt32.ofInt height)
      (run ledger (txEvents env.hashes (UInt32.ofInt height) true coinbase)) rest = some fees ∧
    (∀ fee ∈ fees, 0 ≤ fee) ∧ (totalPaid coinbase : Int) ≤ subsidyAt env height + fees.sum

lemma weight_txEvents (H : HashFunctions) (height : UInt32) (isCoinbase : Bool) (tx : CTransaction) :
    totalWeight worth ((txEvents H height isCoinbase tx).filterMap Event.created) = totalPaid tx := by
  have outputs : (createdOutputs (tx.getHash H) tx.vout).map (fun output => output.2.nValue.toNat) =
      tx.vout.map fun txout => txout.nValue.toNat := by
    conv_rhs => rw [← zipIdx_map_fst 0 tx.vout, map_map]
    rw [createdOutputs, map_map]
    rfl
  rw [created_txEvents, totalPaid, ← outputs, totalWeight, map_map]
  rfl

lemma totalWeight_append (weigh : CUTXOEntry → Nat) (first second : List SpentRecord) :
    totalWeight weigh (first ++ second) = totalWeight weigh first + totalWeight weigh second := by
  simp [totalWeight]

lemma weight_flatMap (H : HashFunctions) (height : UInt32) (transactions : List CTransaction) :
    totalWeight worth ((transactions.flatMap (txEvents H height false)).filterMap Event.created) =
      (transactions.map totalPaid).sum := by
  induction transactions with
  | nil => rfl
  | cons tx rest ih =>
    rw [flatMap_cons, filterMap_append, totalWeight_append, weight_txEvents, ih, map_cons, sum_cons]

lemma weight_blockEvents (H : HashFunctions) (height : UInt32) (block : CBlock) :
    totalWeight worth ((blockEvents H height block).filterMap Event.created) =
      ((blockTransactions block).map totalPaid).sum := by
  unfold blockEvents transactionsEvents
  cases blockTransactions block with
  | nil => rfl
  | cons coinbase rest =>
    simp [totalWeight_append, weight_txEvents, weight_flatMap]

/-- The fees are what the transactions spend less what they pay. -/
lemma txFees_sum {H : HashFunctions} {height : UInt32} {now : UTXOLedger} {transactions : List CTransaction}
    {fees : List Int} (computed : txFees H height now transactions = some fees) :
    ∃ records, spentRecords (fun _ => none) now (transactions.flatMap (txEvents H height false)) = some records ∧
      (totalWeight worth records : Int) = (transactions.map totalPaid).sum + fees.sum := by
  induction transactions generalizing now fees with
  | nil =>
    cases computed
    exact ⟨[], rfl, rfl⟩
  | cons tx rest ih =>
    simp only [txFees, Option.bind_eq_some_iff, Option.map_eq_some_iff] at computed
    obtain ⟨spent, found, later, computedRest, rfl⟩ := computed
    obtain ⟨records, foundRest, total⟩ := ih computedRest
    refine ⟨spent ++ records, ?_, ?_⟩
    · rw [flatMap_cons, spentRecords_append, found]
      simp [foundRest]
    · rw [totalWeight_append, map_cons, sum_cons, sum_cons]
      omega

/-- Above a ledger with a cap, a block that conserves value leaves a ledger whose cap is raised by the subsidy. -/
lemma Conserves.capped {env : Env} {ledger : UTXOLedger} {block : CBlock} {height : Int} {cap : Nat}
    (conserves : Conserves env ledger block height) (capped : Capped worth ledger cap) :
    Capped worth (run ledger (blockEvents env.hashes (UInt32.ofInt height) block)) (cap + subsidyAt env height) := by
  obtain ⟨coinbase, rest, fees, decoded, computed, -, pays⟩ := conserves
  obtain ⟨records, foundRest, total⟩ := txFees_sum computed
  have events : blockEvents env.hashes (UInt32.ofInt height) block =
      txEvents env.hashes (UInt32.ofInt height) true coinbase ++ rest.flatMap
        (txEvents env.hashes (UInt32.ofInt height) false) := by
    rw [blockEvents, decoded, transactionsEvents]
  have first := capped.run_le (txEvents env.hashes (UInt32.ofInt height) true coinbase)
  obtain ⟨left, balance, cappedAfter⟩ := first.run foundRest
  rw [weight_txEvents, weight_flatMap] at balance
  rw [events, run_append]
  exact cappedAfter.mono (by omega)

/-- What has been issued up to a height: the outputs of the first block and the subsidies of the others. -/
def issued (env : Env) (genesis : CBlock) (height : Nat) : Nat :=
  ((blockTransactions genesis).map totalPaid).sum + ∑ below ∈ Finset.range height, subsidyAt env (below + 1)

lemma issued_mono (env : Env) (genesis : CBlock) {height higher : Nat} (le : height ≤ higher) :
    issued env genesis height ≤ issued env genesis higher :=
  Nat.add_le_add_left (Finset.sum_le_sum_of_subset (Finset.range_mono le)) _

section

open CBlockValidator CTransactionValidator Stateful BlockProcessing

variable {env : Env} {ledger : UTXOLedger} {context : ValidationContext} {ctx : NodeContext} {tx : CTransaction}
  {height : UInt32} {block : CBlock} {rest : List CTransaction} {total : FeeTotal}

lemma sumOutputs_exact {total sum : UInt64} {outputs : List CTxOut} (summed : sumOutputs total outputs = some sum) :
    sum.toNat = total.toNat + (outputs.map fun output => output.nValue.toNat).sum := by
  induction outputs generalizing total with
  | nil =>
    cases summed
    rfl
  | cons output rest ih =>
    rw [sumOutputs] at summed
    split at summed
    · cases summed
    · rename_i fits
      have := output.nValue.toNat_lt
      rw [UInt64.lt_iff_toNat_lt, UInt64.toNat_add] at fits
      rw [ih summed, UInt64.toNat_add, map_cons, sum_cons]
      omega

lemma maxCoinbaseValue_le {params : ChainParams} {nHeight : UInt32} {totalFees : CAmount} {nMaxValue : UInt64}
    (limit : maxCoinbaseValue params nHeight totalFees = some nMaxValue) :
    nMaxValue.toNat ≤ (calculateBlockSubsidy params nHeight).toNat + totalFees.toInt.toNat := by
  unfold maxCoinbaseValue at limit
  dsimp only at limit
  split at limit
  · rename_i positive
    split at limit
    · cases limit
    · cases limit
      have low : 0 < totalFees.toInt := Int64.lt_iff_toInt_lt.mp positive
      have bits : totalFees.toInt = Int.bmod totalFees.toUInt64.toNat (2 ^ 64) := BitVec.toInt_eq_toNat_bmod _
      have fees : totalFees.toUInt64.toNat = totalFees.toInt.toNat := by
        have := totalFees.toUInt64.toNat_lt
        simp only [Int.bmod_def] at bits
        omega
      rw [UInt64.toNat_add, ← fees]
      exact Nat.mod_le _ _
  · cases limit
    exact Nat.le_add_right _ _

/-- Subsidy and fees as exact numbers bound what an accepted coinbase pays; fees that are negative add nothing. -/
lemma checkCoinbase_pays {params : ChainParams} {coinbase : CTransaction} {nHeight : UInt32} {totalFees : CAmount}
    (above : nHeight ≠ 0) (accepted : checkCoinbase params coinbase nHeight totalFees = .ok ()) :
    totalPaid coinbase ≤ (calculateBlockSubsidy params nHeight).toNat + totalFees.toInt.toNat := by
  have value : checkCoinbaseValue params coinbase nHeight totalFees = .ok () := by
    unfold checkCoinbase at accepted
    rw [if_neg above] at accepted
    cases structured : checkCoinbaseStructure coinbase with
    | error text => simp [structured, bind, Except.bind] at accepted
    | ok done =>
      cases valued : checkCoinbaseValue params coinbase nHeight totalFees with
      | error text => simp [structured, valued, bind, Except.bind] at accepted
      | ok done => rfl
  unfold checkCoinbaseValue at value
  split at value
  · cases value
  · rename_i nMaxValue limit
    split at value
    · cases value
    · rename_i nCoinbaseValue sum
      split at value
      · cases value
      · rename_i within
        have paid : nCoinbaseValue.toNat = totalPaid coinbase := by
          rw [sumOutputs_exact sum, UInt64.toNat_zero, Nat.zero_add, totalPaid]
        have bounded : nCoinbaseValue.toNat ≤ nMaxValue.toNat := by
          rw [gt_iff_lt, UInt64.lt_iff_toNat_lt] at within
          omega
        exact paid ▸ bounded.trans (maxCoinbaseValue_le limit)

lemma acceptsCoinbase_pays {params : ChainParams} {coinbase : CTransaction} {nHeight : UInt32} (above : nHeight ≠ 0)
    (reliable : total.feeCalcReliable = true) (accepted : acceptsCoinbase params coinbase nHeight total = true) :
    totalPaid coinbase ≤ (calculateBlockSubsidy params nHeight).toNat + total.totalFees.toNat := by
  unfold acceptsCoinbase at accepted
  rw [if_pos reliable] at accepted
  split at accepted
  · rename_i checked
    have bound := checkCoinbase_pays above checked
    have bits : total.totalFees.toInt64.toInt = Int.bmod total.totalFees.toNat (2 ^ 64) := toInt_toInt64 _
    have := total.totalFees.toNat_lt
    simp only [Int.bmod_def] at bits
    omega
  · cases accepted

lemma reliable_of_foldl (reliable : (rest.foldl (addFee env ctx height) total).feeCalcReliable = true) :
    total.feeCalcReliable = true := by
  induction rest generalizing total with
  | nil => exact reliable
  | cons tx rest ih =>
    have later : (addFee env ctx height total tx).feeCalcReliable = true := ih reliable
    unfold addFee at later
    split at later
    · exact later
    · cases later

/-- Fees that are all computed are exact if no outputs wrap, and their total is not more than their sum. -/
lemma fees_of_reliable (reads : Reads env ledger total.set) (regular : ∀ tx ∈ rest, tx.isCoinBase = false)
    (small : ∀ tx ∈ rest, totalPaid tx < 2 ^ 63)
    (reliable : (rest.foldl (addFee env ctx height) total).feeCalcReliable = true) :
    (∀ tx ∈ rest, (∀ txin ∈ tx.vin, ledger txin.prevout ≠ none) ∧ totalPaid tx ≤ totalReferenced ledger tx) ∧
      ((rest.foldl (addFee env ctx height) total).totalFees.toNat : Int) ≤
        total.totalFees.toNat + (rest.map fun tx => (totalReferenced ledger tx : Int) - totalPaid tx).sum := by
  induction rest generalizing total with
  | nil => simp
  | cons tx rest ih =>
    obtain ⟨regularHere, regularRest⟩ := forall_mem_cons.mp regular
    obtain ⟨smallHere, smallRest⟩ := forall_mem_cons.mp small
    have kept := checkTransactionInputs_keeps env ctx.validation ledger regularHere height total.set reads
    rw [foldl_cons] at reliable ⊢
    have computed := reliable_of_foldl reliable
    cases outcome : checkTransactionInputs env ctx.validation tx height total.set with
    | mk result set =>
      rw [outcome] at kept
      cases result with
      | error text => simp [addFee, outcome] at computed
      | ok txFee =>
        have added : addFee env ctx height total tx =
            { total with
              totalFees := if 0 < txFee then total.totalFees + txFee.toUInt64 else total.totalFees, set := set } := by
          simp [addFee, outcome]
        obtain ⟨feeOf, mature⟩ := kept.2 txFee rfl
        obtain ⟨covered, fee⟩ := feeOf.exact_iff.mpr smallHere
        rw [added] at reliable ⊢
        obtain ⟨others, sum⟩ := ih kept.1 regularRest smallRest reliable
        refine ⟨forall_mem_cons.mpr ⟨⟨fun txin member => ?_, covered⟩, others⟩, sum.trans ?_⟩
        · obtain ⟨entry, found, -⟩ := mature txin member
          simp [found]
        · have here : ((if 0 < txFee then total.totalFees + txFee.toUInt64 else total.totalFees).toNat : Int) ≤
              total.totalFees.toNat + txFee.toInt := by
            have bits : txFee.toInt = Int.bmod txFee.toUInt64.toNat (2 ^ 64) := BitVec.toInt_eq_toNat_bmod _
            have := txFee.toUInt64.toNat_lt
            have range := feeOf.range
            simp only [Int.bmod_def] at bits
            split
            · rw [UInt64.toNat_add]
              omega
            · omega
          rw [map_cons, sum_cons, ← fee]
          dsimp only
          omega

lemma checkSpentOnce_nodup {spentOutputs prevouts : List COutPoint}
    (passed : checkSpentOnce spentOutputs prevouts = .ok ()) :
    prevouts.Nodup ∧ ∀ prevout ∈ prevouts, prevout ∉ spentOutputs := by
  induction prevouts generalizing spentOutputs with
  | nil => simp
  | cons prevout rest ih =>
    unfold checkSpentOnce at passed
    split at passed
    · cases passed
    · rename_i unseen
      obtain ⟨nodup, apart⟩ := ih passed
      refine ⟨nodup_cons.mpr ⟨fun again => apart prevout again mem_cons_self, nodup⟩, forall_mem_cons.mpr ⟨unseen, ?_⟩⟩
      exact fun other member seen => apart other member (mem_cons_of_mem _ seen)

/-- No transaction after the first is a coinbase, and together they name no outpoint twice. -/
structure SpendsOnce (block : CBlock) : Prop where
  regular : ∀ tx ∈ (blockTransactions block).tail, tx.isCoinBase = false
  once : checkNoDoubleSpends (blockTransactions block) = .ok ()

lemma consumed_txEvents (H : HashFunctions) (height : UInt32) (tx : CTransaction) :
    (txEvents H height false tx).filterMap Event.consumed = tx.vin.map CTxIn.prevout := by
  simp [txEvents, filterMap_append, filterMap_map, Function.comp_def, Event.consumed]

lemma consumed_blockEvents (H : HashFunctions) (height : UInt32) (block : CBlock) :
    (blockEvents H height block).filterMap Event.consumed =
      (blockTransactions block).tail.flatMap fun tx => tx.vin.map CTxIn.prevout := by
  unfold blockEvents transactionsEvents
  cases blockTransactions block with
  | nil => rfl
  | cons coinbase rest =>
    have first : (txEvents H height true coinbase).filterMap Event.consumed = [] := by
      simp [txEvents, filterMap_map, Function.comp_def, Event.consumed]
    rw [filterMap_append, first, nil_append, filterMap_flatMap, tail_cons]
    simp only [consumed_txEvents]

lemma SpendsOnce.nodup (spendsOnce : SpendsOnce block) (H : HashFunctions) (height : UInt32) :
    ((blockEvents H height block).filterMap Event.consumed).Nodup := by
  obtain ⟨regular, once⟩ := spendsOnce
  rw [consumed_blockEvents]
  have nodup := (checkSpentOnce_nodup once).1
  cases decoded : blockTransactions block with
  | nil => simp
  | cons coinbase rest =>
    rw [decoded] at regular nodup
    have all : rest.filter (fun tx => ¬ tx.isCoinBase) = rest :=
      filter_eq_self.mpr fun tx member => by simp [regular tx member]
    have later := (sublist_cons_self coinbase rest).filter fun tx => ¬ tx.isCoinBase
    rw [all] at later
    exact nodup.sublist (later.flatMap _)

lemma spentRecords_coinbase (H : HashFunctions) (base now : UTXOLedger) (tx : CTransaction) :
    spentRecords base now (txEvents H height true tx) = some [] := by
  rw [txEvents, if_pos rfl, nil_append]
  induction createdOutputs (tx.getHash H) tx.vout generalizing now with
  | nil => rfl
  | cons output rest ih => exact ih _

/-- With the inputs unspent at their turn, the fees are those that the ledger from before the block gives. -/
lemma txFees_of_initial {H : HashFunctions} {now : UTXOLedger} {records : List SpentRecord}
    (found : spentRecords (fun _ => none) now (rest.flatMap (txEvents H height false)) = some records)
    (initial : ∀ record ∈ records, ledger record.1 = some record.2) :
    txFees H height now rest = some (rest.map fun tx => (totalReferenced ledger tx : Int) - totalPaid tx) := by
  induction rest generalizing now records with
  | nil => rfl
  | cons tx rest ih =>
    rw [flatMap_cons, spentRecords_append] at found
    obtain ⟨first, foundFirst, found⟩ := Option.bind_eq_some_iff.mp found
    obtain ⟨others, foundOthers, rfl⟩ := Option.map_eq_some_iff.mp found
    obtain ⟨initialFirst, initialOthers⟩ := forall_mem_append.mp initial
    have referenced : totalWeight worth first = totalReferenced ledger tx := by
      have keys := spentRecords_keys foundFirst
      rw [consumed_txEvents] at keys
      have values : ∀ record ∈ first, record.2.worth = weightAt worth ledger record.1 := fun record member => by
        rw [weightAt, initialFirst record member]
        rfl
      calc totalWeight worth first = ((first.map Prod.fst).map (weightAt worth ledger)).sum := by
            rw [totalWeight, map_congr_left values, map_map]
            rfl
        _ = totalReferenced ledger tx := by
            rw [keys, map_map, totalReferenced]
            refine congrArg sum (map_congr_left fun txin _ => ?_)
            rw [Function.comp_apply, weightAt, referencedValue]
            cases ledger txin.prevout <;> rfl
    rw [txFees, foundFirst, Option.bind_some, ih foundOthers initialOthers, Option.map_some, map_cons, referenced]

end

/-- The block sits on the tip, or has its coinbase only, at a height in the source's range. -/
structure OnTip (node : Node) (block : CBlock) : Prop extends SpendsOnce block where
  tip : node.chain.pindexTip = some block.hashPrevBlock ∨ (blockTransactions block).tail = []
  height : BlockProcessing.heightAbove node.chain.toBlockTree block < 2 ^ 31

/-- The block goes through the coinbase phase, which can compute all its fees. Their sums of outputs do not wrap. -/
structure FeesComputed (env : Env) (ctx : NodeContext) (node : Node) (action : Node.Action)
    (hash : Uint256) (block : CBlock) : Prop extends OnTip node block where
  screened : node.subject env ctx action = some (hash, block, true)
  unstaged : node.activeFork = none
  network : env.params.isTestnet = false
  aboveCheckpoints : BlockProcessing.skipPoWCheck env.params node.chain.toBlockTree = false
  computed : ((blockTransactions block).tail.foldl (BlockProcessing.addFee env ctx
    (UInt32.ofInt (BlockProcessing.heightAbove node.chain.toBlockTree block)))
      ⟨0, true, node.chain.utxoSet⟩).feeCalcReliable = true
  unwrapped : ∀ tx ∈ (blockTransactions block).tail, totalPaid tx < 2 ^ 63

def valueCharter (env : Env) (genesis : Uint256) (bodyOf : Uint256 → CBlock) : CChainState.Charter :=
  ⟨genesis, bodyOf, Conserves env⟩

section

open CChainState BlockTree

variable {env : Env} {genesis : Uint256} {bodyOf : Uint256 → CBlock} {s : CChainState}
  {node start : Node} {hash : Uint256}
  {below chain : List Uint256}

/-- The ledger of a chain is capped by what has been issued along it. -/
lemma capped_replay (kept : KeepsCharter env (valueCharter env genesis bodyOf) s)
    (path : Path s.mapBlockIndex (hash :: below))
    (accepted : s.Accepted env (hash :: below)) :
    Capped worth (s.replay env (hash :: below)).stored (issued env (bodyOf genesis) below.length) := by
  induction below generalizing hash with
  | nil =>
    have lawful := kept.lawful_of_path path
    obtain ⟨-, pindex, block, found, body, taken⟩ := accepted
    obtain ⟨⟨entry, at_, link⟩, -⟩ := path
    cases found.symm.trans at_
    obtain ⟨rfl, -⟩ := kept.root hash pindex found link
    have isBody := kept.stored _ block body
    have placed := (lawful.2 pindex block found body trivial).1
    obtain ⟨spent, -, stored⟩ := placed.applied emptySet_coherent (Prod.fst_eq_iff.mp taken)
    rw [replay_cons found body, stored]
    refine (capped_empty.run_le _).mono ?_
    rw [weight_blockEvents, isBody, issued]
    exact Nat.le_of_eq (by simp [valueCharter])
  | cons parent rest ih =>
    have lawful := kept.lawful_of_path path
    have acceptedBelow := accepted.1
    obtain ⟨-, pindex, block, found, body, taken⟩ := accepted
    have height := kept.nHeight_eq path found
    obtain ⟨placed, law⟩ := lawful.2 pindex block found body acceptedBelow
    have capped := ih path.2 acceptedBelow
    obtain ⟨spent, -, stored⟩ := placed.applied (lawful.1.coherent acceptedBelow) (Prod.fst_eq_iff.mp taken)
    have conserves : Conserves env (s.replay env (parent :: rest)).stored block pindex.nHeight := law (by simp)
    rw [replay_cons found body, stored]
    refine (conserves.capped capped).mono (Nat.le_of_eq ?_)
    rw [height, issued, issued, length_cons, Finset.sum_range_succ, Nat.add_assoc]
    rfl

lemma Reflects.capped (reflects : Reflects env s chain) (kept : KeepsCharter env (valueCharter env genesis bodyOf) s) :
    Capped worth (s.utxoSet.view env) (issued env (bodyOf genesis) (chain.length - 1)) := by
  rw [reflects.mirrors.coherent.view_eq, reflects.mirrors.stored]
  cases chain with
  | nil => exact capped_empty.mono (Nat.zero_le _)
  | cons hash below => exact capped_replay kept reflects.path reflects.accepted

lemma Node.InOrder.capped (inOrder : node.InOrder env (valueCharter env genesis bodyOf)) {tip : Uint256}
    {pindexTip : CBlockIndex}
    (isTip : node.chain.pindexTip = some tip) (found : node.chain.mapBlockIndex.lookup tip = some pindexTip) :
    Capped worth (node.chain.utxoSet.view env) (issued env (bodyOf genesis) pindexTip.nHeight.toNat) := by
  have shape (kept : KeepsCharter env (valueCharter env genesis bodyOf) node.chain) :
      node.chain.activeChain.length = pindexTip.nHeight.toNat + 1 := by
    have path := path_ancestry kept.stepped (some tip)
    rw [ancestry_of_lookup kept.stepped found] at path
    rw [activeChain_of_tip kept.stepped isTip found, length_cons, kept.nHeight_eq path found, Int.toNat_natCast]
  rcases inOrder.chain with sane | lost
  · refine (Reflects.capped sane.reflects sane.kept).mono (issued_mono _ _ ?_)
    rw [shape sane.kept, Nat.add_sub_cancel]
  · refine (Reflects.capped lost.reflects lost.kept).mono (issued_mono _ _ ?_)
    rw [length_tail, shape lost.kept]
    omega

open BlockProcessing in
/-- Away from testnet and above the checkpoints, a block that passes the checks has passed the coinbase phase. -/
lemma validateCoinbase_of_checkBlock {ctx : NodeContext} {block : CBlock} {t : CChainState}
    (network : env.params.isTestnet = false) (passed : checkBlock env ctx s hash block false = .ok t) :
    (validateCoinbase env ctx s block).1 = true := by
  cases verdict : validateCoinbase env ctx s block with
  | mk answer set =>
    cases answer with
    | true => rfl
    | false =>
      unfold checkBlock checkRules at passed
      simp only [verdict, network, Bool.or_self, Bool.false_eq_true, if_false] at passed
      split at passed <;> try cases passed
      split at passed <;> cases passed

open BlockProcessing in
/-- A block that is taken in by this route has passed the coinbase phase, with its fees. -/
lemma FeesComputed.accepted {ctx : NodeContext} {action : Node.Action} {block : CBlock}
    (route : FeesComputed env ctx node action hash block) (taken : node.TakesIn env ctx action hash block) :
    ∃ coinbase rest, blockTransactions block = coinbase :: rest ∧
      acceptsCoinbase env.params coinbase (UInt32.ofInt (heightAbove node.chain.toBlockTree block))
        (rest.foldl (addFee env ctx (UInt32.ofInt (heightAbove node.chain.toBlockTree block)))
          ⟨0, true, node.chain.utxoSet⟩) = true := by
  obtain ⟨screened, isSubject, kept⟩ := taken
  cases route.screened.symm.trans isSubject
  have passed : Node.drops env ctx node.chain hash block = false := by
    simpa using fun drop => kept ⟨rfl, route.unstaged, drop⟩
  obtain ⟨-, passed⟩ := Bool.or_eq_false_iff.mp passed
  rw [route.aboveCheckpoints] at passed
  have phase : (validateCoinbase env ctx node.chain block).1 = true := by
    split at passed
    · cases passed
    · rename_i checked
      exact validateCoinbase_of_checkBlock route.network checked
  unfold validateCoinbase at phase
  unfold blockTransactions
  split at phase
  · cases phase
  · cases phase
  · rename_i coinbase rest decoded
    rw [decoded]
    exact ⟨coinbase, rest, rfl, phase⟩

lemma toNat_ofInt {height : Int} (low : 0 ≤ height) (high : height < 2 ^ 31) :
    (UInt32.ofInt height).toNat = height.toNat := by
  rw [UInt32.ofInt, UInt32.toNat_ofNat', Int.emod_eq_of_lt low (by omega)]
  omega

open BlockProcessing in
lemma OnTip.heightAbove_eq {charter : Charter} {block : CBlock} {pParent : CBlockIndex} (onTip : OnTip node block)
    (kept : KeepsCharter env charter node.chain)
    (parent : node.chain.mapBlockIndex.lookup block.hashPrevBlock = some pParent) :
    heightAbove node.chain.toBlockTree block = pParent.nHeight + 1 ∧ 0 < pParent.nHeight + 1 ∧
    pParent.nHeight + 1 < 2 ^ 31 := by
  have above : heightAbove node.chain.toBlockTree block = pParent.nHeight + 1 := by
    rw [heightAbove, show node.chain.getBlockIndex block.hashPrevBlock = some pParent from parent, Option.elim_some]
  have path := path_ancestry kept.stepped (some block.hashPrevBlock)
  rw [ancestry_of_lookup kept.stepped parent] at path
  have height := kept.nHeight_eq path parent
  exact ⟨above, by omega, above ▸ onTip.height⟩

/-- On the tip, the set answers as the ledger of the ancestors. -/
lemma reads_of_tip {charter : Charter} {parent : Uint256} (sane : Sane env charter node.chain)
    (isTip : node.chain.pindexTip = some parent) :
    Reads env (node.chain.replay env ((node.chain.ancestry (some parent)).map Prod.fst)).stored node.chain.utxoSet := by
  have mirrors := sane.reflects.mirrors
  rw [activeChain, isTip] at mirrors
  exact ⟨mirrors.coherent.view_eq.trans mirrors.stored, mirrors.coherent.steady⟩

open BlockProcessing in
/-- By this route a block conserves value above the ledger of its ancestors. -/
lemma FeesComputed.conserves : Node.Gives env (valueCharter env genesis bodyOf) (FeesComputed env) := by
  intro ctx node action hash block pParent sane taken parent route placed
  obtain ⟨coinbase, rest, decoded, phase⟩ := route.accepted taken
  obtain ⟨above, positive, low⟩ := route.heightAbove_eq sane.kept parent
  have computed := route.computed
  have regular := route.regular
  have unwrapped := route.unwrapped
  rw [decoded, tail_cons, above] at computed
  rw [decoded, tail_cons] at regular unwrapped
  rw [above] at phase
  generalize fees : rest.foldl (addFee env ctx (UInt32.ofInt (pParent.nHeight + 1)))
    ⟨0, true, node.chain.utxoSet⟩ = total at *
  generalize below : (node.chain.ancestry (some block.hashPrevBlock)).map Prod.fst = chain at *
  generalize found : (node.chain.replay env chain).stored = ledger at *
  -- what the phase has computed, on the set that the tip left
  have known : (∀ tx ∈ rest, (∀ txin ∈ tx.vin, ledger txin.prevout ≠ none) ∧ totalPaid tx ≤ totalReferenced ledger tx) ∧
      (total.totalFees.toNat : Int) ≤ (rest.map fun tx => (totalReferenced ledger tx : Int) - totalPaid tx).sum := by
    rcases route.tip with isTip | alone
    · have reads := reads_of_tip sane isTip
      rw [below, found] at reads
      rw [← fees] at computed ⊢
      have exact_ := @fees_of_reliable _ _ _ _ _ ⟨0, true, node.chain.utxoSet⟩ reads regular unwrapped computed
      simpa using exact_
    · rw [decoded, tail_cons] at alone
      subst alone fees
      simp
  have pays : (totalPaid coinbase : Int) ≤ subsidyAt env (pParent.nHeight + 1) + total.totalFees.toNat := by
    have notFirst : UInt32.ofInt (pParent.nHeight + 1) ≠ 0 := fun zero => by
      have same := congrArg UInt32.toNat zero
      rw [toNat_ofInt positive.le low, UInt32.toNat_zero] at same
      omega
    exact_mod_cast acceptsCoinbase_pays notFirst computed phase
  -- the inputs are all there and differ, so each is unspent at its turn and worth what it was before the block
  have nodup := route.nodup env.hashes (UInt32.ofInt (pParent.nHeight + 1))
  have present : ∀ key ∈ (blockEvents env.hashes (UInt32.ofInt (pParent.nHeight + 1)) block).filterMap
      Event.consumed, ledger key ≠ none := by
    rw [consumed_blockEvents, decoded, tail_cons]
    intro key member
    obtain ⟨tx, inside, member⟩ := mem_flatMap.mp member
    obtain ⟨txin, input, rfl⟩ := mem_map.mp member
    exact (known.1 tx inside).1 txin input
  obtain ⟨spent, records⟩ : ∃ records, spentRecords ledger ledger _ = some records := spentRecords_of_found present
  have initial := (placed.restores spent records).initial records nodup
  have strict := (spentRecords_strict (noRespend_of_nodup nodup nofun)).trans records
  rw [blockEvents, decoded, transactionsEvents, spentRecords_append, spentRecords_coinbase, Option.bind_some] at strict
  obtain ⟨later, foundLater, rfl⟩ := Option.map_eq_some_iff.mp strict
  refine ⟨coinbase, rest, _, decoded, txFees_of_initial foundLater initial, fun fee member => ?_, ?_⟩
  · obtain ⟨tx, inside, rfl⟩ := mem_map.mp member
    have := (known.1 tx inside).2
    omega
  · exact pays.trans (by have := known.2; omega)

/-- In every run from the first block on in which each block comes on the tip with its fees computed, the
outputs of the set are worth at most what has been issued, and every block that was connected conserves
value above the ledger of its ancestors. -/
theorem no_inflation_of_run (env : Env) (genesis : Uint256) (bodyOf : Uint256 → CBlock) (start node : Node)
    (atGenesis : start.AtGenesis env (Node.freeCharter genesis bodyOf))
    (run : Node.Run env (Node.Routed env genesis bodyOf (FeesComputed env)) start node) :
    (∃ tip pindexTip, node.chain.pindexTip = some tip ∧ node.chain.mapBlockIndex.lookup tip = some pindexTip ∧
      ∀ outpoints : Finset COutPoint,
        ∑ outpoint ∈ outpoints, weightAt CUTXOEntry.worth (node.chain.utxoSet.view env) outpoint ≤
        issued env (bodyOf genesis) pindexTip.nHeight.toNat) ∧
    ∀ hash height block, ChainEvent.blockConnected hash height block ∈ node.chain.events → 0 < height →
      ∃ below, Path node.chain.mapBlockIndex (hash :: below) ∧ (below.length : Int) = height ∧
        Conserves env (node.chain.replay env below).stored block height := by
  have inOrder := run.inOrder FeesComputed.conserves atGenesis
  obtain ⟨tip, pindexTip, isTip, found⟩ := inOrder.chain.elim Sane.tip Lost.tip
  refine ⟨⟨tip, pindexTip, isTip, found, inOrder.capped isTip found⟩, fun hash height block connected above => ?_⟩
  obtain ⟨below, -, path, length, -, -, law⟩ := inOrder.kept.law_of_connected connected above
  exact ⟨below, path, length, law⟩

end

def openReward : CTransaction := coinbaseTx 0 [⟨5000000000, [0x51]⟩]

def openRewardHash : Uint256 := .ofNat 0x100
def openGenesisHash : Uint256 := .ofNat 0x101

/-- A first block whose reward anyone may spend. -/
def openGenesis : CBlock := minedBlock .null openRewardHash 0 [openReward]

def claimTx : CTransaction := ⟨1, [⟨⟨openRewardHash, 0⟩, [], 0xFFFFFFFF⟩], [⟨4999000000, payToKeyHash minerKeyHash⟩], 0⟩

/-- Pays out the subsidy and the fee of `claimTx`. -/
def claimReward : CTransaction := coinbaseTx 1 [⟨4901000000, payToKeyHash minerKeyHash⟩,
  ⟨50000000, payToKeyHash Consensus.devFundPubkeyHash⟩, ⟨50000000, payToKeyHash Consensus.devRewardPubkeyHash⟩]

def claimBlockHash : Uint256 := .ofNat 0x102

def claimBlock : CBlock := minedBlock openGenesisHash (.ofNat 0x105) 1 [claimReward, claimTx]

def claimEnv : Env where
  params := { coinbaseMaturity := 1 }
  hashes := .ofTable [(openReward.serialize, openRewardHash), (claimReward.serialize, .ofNat 0x103),
    (claimTx.serialize, .ofNat 0x104),
    ((Uint256.ofNat 0x103).data ++ (Uint256.ofNat 0x104).data, .ofNat 0x105),
    (openGenesis.toCBlockHeader.serializeHeader, openGenesisHash),
      (claimBlock.toCBlockHeader.serializeHeader, claimBlockHash),
    (undoPayload [], .ofNat 0x106),
      (undoPayload [(⟨openRewardHash, 0⟩, ⟨⟨5000000000, [0x51]⟩, 0, true⟩)], .ofNat 0x107)]

def claimBodies (hash : Uint256) : CBlock := if hash = openGenesisHash then openGenesis else claimBlock

def openNode : Node := startNode claimEnv openGenesis openGenesisHash

lemma openNode_atGenesis : openNode.AtGenesis claimEnv (Node.freeCharter openGenesisHash claimBodies) :=
  startNode_atGenesis (by decide +kernel) (by decide +kernel) (by decide +kernel) _

lemma openNode_subject : openNode.subject claimEnv openContext (.deliver 0 claimBlock none) =
    some (claimBlockHash, claimBlock, true) := by
  decide +kernel

lemma claimBlock_onTip : OnTip openNode claimBlock where
  regular := by decide +kernel
  once := by decide +kernel
  tip := .inl rfl
  height := by decide

/-- By any route that the block meets, it is connected. -/
lemma claimBlock_connected {route : NodeContext → Node → Node.Action → Uint256 → CBlock → Prop}
    (comes : route openContext openNode (.deliver 0 claimBlock none) claimBlockHash claimBlock) :
    ∃ node, Node.Run claimEnv (Node.Routed claimEnv openGenesisHash claimBodies route) openNode node ∧
      ChainEvent.blockConnected claimBlockHash 1 claimBlock ∈ node.chain.events := by
  have connects : (openNode.step claimEnv openContext (.deliver 0 claimBlock none)).any (fun node =>
      decide (blockConnected claimBlockHash 1 claimBlock ∈ node.chain.events)) = true := by decide +kernel
  have tested : orderly claimEnv claimBodies (fun _ => true) openNode
    (.deliver 0 claimBlock none) = true := by decide +kernel
  obtain ⟨node, moved, connected⟩ := (Option.any_eq_true _ _).mp connects
  refine ⟨node, .next .start openContext _ ⟨?_, fun hash block pParent taken _ _ => ?_⟩ moved,
    of_decide_eq_true connected⟩
  · exact orderly_sound (fun _ _ => trivial) openNode _ tested
  · obtain ⟨screened, isSubject, -⟩ := taken
    cases openNode_subject.symm.trans isSubject
    exact comes

theorem no_inflation_by_claimed_fee : ∃ node,
    Node.Run claimEnv (Node.Routed claimEnv openGenesisHash claimBodies (FeesComputed claimEnv)) openNode node ∧
    ChainEvent.blockConnected claimBlockHash 1 claimBlock ∈ node.chain.events ∧
    ∃ tip pindexTip, node.chain.pindexTip = some tip ∧ node.chain.mapBlockIndex.lookup tip = some pindexTip ∧
      ∀ outpoints : Finset COutPoint,
        ∑ outpoint ∈ outpoints, weightAt CUTXOEntry.worth (node.chain.utxoSet.view claimEnv) outpoint ≤
          issued claimEnv openGenesis pindexTip.nHeight.toNat := by
  have comes : FeesComputed claimEnv openContext openNode (.deliver 0 claimBlock none) claimBlockHash claimBlock :=
    { toOnTip := claimBlock_onTip, screened := openNode_subject, unstaged := rfl, network := rfl,
      aboveCheckpoints := by decide
      computed := by decide +kernel, unwrapped := by decide +kernel }
  obtain ⟨node, run, connected⟩ := claimBlock_connected comes
  exact ⟨node, run, connected,
    (no_inflation_of_run claimEnv openGenesisHash claimBodies openNode node openNode_atGenesis run).1⟩

def theftTxHash : Uint256 := .ofNat 0x5aeedda896a4ee385593985a4389af12f0364a3cefd52fd5a189ba62cc24fa7a
def theftRoot : Uint256 := .ofNat 0x696e5d09a51b02c595fba9799f0d7d6b394985e92615e450c937a38906d4cc7f
def theftBlockHash : Uint256 := .ofNat 0x746ddb1d97796640ed81cfba4e3116c14079fa9fb034c17355ce54ccb2718887

/-- Spends the genesis reward without a signature, one block after it, and pays out more than it is worth. -/
def theftTx : CTransaction :=
  ⟨1, [⟨⟨genesisRewardHash, 0⟩, [], 0xFFFFFFFF⟩], [⟨6000000000, payToKeyHash minerKeyHash⟩], 0⟩

def theftBlock : CBlock := minedBlock genesisBlockHash theftRoot 1 [firstReward, theftTx]

def theftEnv : Env where
  hashes := .ofTable (genesisTable ++
    [(theftTx.serialize, theftTxHash), (firstRewardHash.data ++ theftTxHash.data, theftRoot),
     (theftBlock.toCBlockHeader.serializeHeader, theftBlockHash),
     (undoPayload [(⟨genesisRewardHash, 0⟩, ⟨⟨5000000000, payToKeyHash minerKeyHash⟩, 0, true⟩)],
       .ofNat 0xe27defc3c767930bea9b7085087c5cd9e165e14ab9e819595124a5b29a88320d)])

def theftOutPoints : Finset COutPoint :=
  [⟨firstRewardHash, 0⟩, ⟨firstRewardHash, 1⟩, ⟨firstRewardHash, 2⟩, ⟨theftTxHash, 0⟩].toFinset

/-- The block is connected at height 1, above all checkpoints, and the set holds more than has been issued. -/
theorem theft_inflates : ∃ node,
    BlockProcessing.skipPoWCheck theftEnv.params (genesisNode theftEnv).chain.toBlockTree = false ∧
    (genesisNode theftEnv).processNewBlock theftEnv openContext 0 theftBlock none = some (.accepted, node) ∧
    node.chain.pindexTip = some theftBlockHash ∧
    ChainEvent.blockConnected theftBlockHash 1 theftBlock ∈ node.chain.events ∧
    issued theftEnv genesisBlock 1 <
      ∑ outpoint ∈ theftOutPoints, weightAt CUTXOEntry.worth (node.chain.utxoSet.view theftEnv) outpoint := by
  have accepted : ((genesisNode theftEnv).processNewBlock theftEnv openContext 0 theftBlock none).any (fun outcome =>
      decide (outcome.1 = .accepted ∧ outcome.2.chain.pindexTip = some theftBlockHash ∧
        blockConnected theftBlockHash 1 theftBlock ∈ outcome.2.chain.events ∧
        issued theftEnv genesisBlock 1 <
          ∑ outpoint ∈ theftOutPoints, weightAt worth (outcome.2.chain.utxoSet.view theftEnv) outpoint)) = true := by
    decide +kernel
  obtain ⟨⟨result, node⟩, outcome, holds⟩ := (Option.any_eq_true _ _).mp accepted
  obtain ⟨rfl, tip, connected, more⟩ := of_decide_eq_true holds
  exact ⟨node, by rfl, outcome, tip, connected, more⟩

/-! Who may spend an output. The path of a block to the set verifies no script, and what the coinbase phase finds
out about maturity is ignored. The checks are made on relay, by `CheckTransaction`. If the transactions of every
block would be accepted there, on the set that the block finds at the tip, then every spend of every block ever
connected is authorised: `CheckTransaction` sees the outputs that the block goes on to spend, and its subtraction of
heights agrees with the addition of `IsCoinBaseMature`, since no output in the set is from above. -/

open CTransactionValidator

def CUTXOEntry.isMature (env : Env) (height : UInt32) (entry : CUTXOEntry) : Bool :=
  !entry.fCoinBase || decide (entry.nHeight + env.params.coinbaseMaturity ≤ height)

def spendsOfTx (tx : CTransaction) : List (CTransaction × CTxIn × Nat) := tx.vin.zipIdx.map (tx, ·)

def spendsOf (block : CBlock) : List (CTransaction × CTxIn × Nat) := (blockTransactions block).tail.flatMap spendsOfTx

/-- The record is of the output that the input names, its script lets the input through and it is mature. -/
structure AuthorisedSpend (env : Env) (height : UInt32) (spend : CTransaction × CTxIn × Nat) (record : SpentRecord) :
    Prop where
  outpoint : record.1 = spend.2.1.prevout
  script : CTransactionValidator.verifyScript env spend.1 spend.2.2 spend.2.1.scriptSig record.2.out.scriptPubKey =
    .ok ()
  mature : record.2.isMature env height = true

/-- What the block consumes is what its inputs name, each let through. -/
def Authorised (env : Env) (ledger : UTXOLedger) (block : CBlock) (height : Int) : Prop :=
  ∀ spent, spentRecords ledger ledger (blockEvents env.hashes (UInt32.ofInt height) block) = some spent →
    List.Forall₂ (AuthorisedSpend env (UInt32.ofInt height)) (spendsOf block) spent

def spendCharter (env : Env) (genesis : Uint256) (bodyOf : Uint256 → CBlock) : CChainState.Charter :=
  ⟨genesis, bodyOf, Authorised env⟩

/-- Each transaction but the first would be accepted for relay, one by one, on the set that the block finds. -/
structure Relayable (env : Env) (ctx : NodeContext) (node : Node) (_ : Node.Action)
    (_ : Uint256) (block : CBlock) : Prop
    extends OnTip node block where
  accepted : ∀ tx ∈ (blockTransactions block).tail, CTransactionValidator.Accepts env
    { ctx.validation with batchVerifier := none } tx
    (UInt32.ofInt (BlockProcessing.heightAbove node.chain.toBlockTree block)) node.chain.utxoSet

section

open CChainState BlockTree

variable {env : Env} {charter : CChainState.Charter} {s : CChainState} {hash : Uint256}
  {below chain : List Uint256} {block : CBlock}

lemma nHeight_of_created {H : HashFunctions} {height : UInt32} {outpoint : COutPoint} {entry : CUTXOEntry}
    (created : .create outpoint entry ∈ blockEvents H height block) : entry.nHeight = height := by
  have each {isCoinbase : Bool} {tx : CTransaction}
      (member : .create outpoint entry ∈ txEvents H height isCoinbase tx) :
      entry.nHeight = height := by
    rcases mem_append.mp member with input | output
    · split at input <;> simp at input
    · obtain ⟨_, -, same⟩ := mem_map.mp output
      cases same
      rfl
  unfold blockEvents transactionsEvents at created
  split at created
  · cases created
  · rcases mem_append.mp created with first | later
    · exact each first
    · obtain ⟨tx, -, member⟩ := mem_flatMap.mp later
      exact each member

/-- The outputs in the ledger of a chain are from the heights of its blocks. -/
lemma nHeight_of_replay (kept : KeepsCharter env charter s) (path : Path s.mapBlockIndex chain)
    (accepted : s.Accepted env chain) :
    ∀ outpoint entry, (s.replay env chain).stored outpoint = some entry →
      ∃ height < chain.length, entry.nHeight = UInt32.ofInt height := by
  induction chain with
  | nil => exact fun _ _ found => nomatch found
  | cons hash below ih =>
    have lawful := kept.lawful_of_path path
    have acceptedBelow := accepted.1
    obtain ⟨-, pindex, block, found, body, taken⟩ := accepted
    obtain ⟨placed, -⟩ := lawful.2 pindex block found body acceptedBelow
    obtain ⟨spent, -, stored⟩ := placed.applied (lawful.1.coherent acceptedBelow) (Prod.fst_eq_iff.mp taken)
    rw [replay_cons found body, stored]
    refine run_forall (fun outpoint entry before => ?_) fun outpoint entry created => ?_
    · obtain ⟨height, lower, same⟩ := ih path.2 acceptedBelow outpoint entry before
      exact ⟨height, Nat.lt_succ_of_lt lower, same⟩
    · refine ⟨below.length, Nat.lt_succ_self _, ?_⟩
      rw [nHeight_of_created created, kept.nHeight_eq path found]

/-- For an output from below, the subtraction of the relay check and the addition of `IsCoinBaseMature` agree. -/
lemma isMature_of_checkMaturity {height : UInt32} {entry : CUTXOEntry} (lower : entry.nHeight.toNat ≤ height.toNat)
    (checked : checkMaturity env height entry = .ok ()) : entry.isMature env height = true := by
  unfold checkMaturity at checked
  dsimp only at checked
  split at checked
  · cases checked
  · rename_i old
    rw [CUTXOEntry.isMature, Bool.or_eq_true, Bool.not_eq_true', decide_eq_true_eq]
    refine or_iff_not_imp_left.mpr fun isCoinbase => ?_
    have enough : ¬ height - entry.nHeight < env.params.coinbaseMaturity := fun short =>
      old ⟨by simpa using isCoinbase, short⟩
    rw [UInt32.lt_iff_toNat_lt, UInt32.toNat_sub_of_le _ _ (UInt32.le_iff_toNat_le.mpr lower)] at enough
    rw [UInt32.le_iff_toNat_le, UInt32.toNat_add]
    have := height.toNat_lt
    omega

lemma forall₂_of_keys {A B K : Type} {related : A → B → Prop} {keyA : A → K} {keyB : B → K}
    {first : List A} {second : List B}
    (keys : first.map keyA = second.map keyB) (each : ∀ a ∈ first, ∀ b ∈ second, keyA a = keyB b → related a b) :
    List.Forall₂ related first second := by
  induction first generalizing second with
  | nil =>
    cases map_eq_nil_iff.mp keys.symm
    exact .nil
  | cons a rest ih =>
    obtain ⟨b, others, rfl, here, later⟩ := map_eq_cons_iff.mp keys.symm
    exact .cons (each a mem_cons_self b mem_cons_self here.symm) (ih later.symm fun x inFirst y inSecond =>
      each x (mem_cons_of_mem _ inFirst) y (mem_cons_of_mem _ inSecond))

lemma prevouts_spendsOf (block : CBlock) : (spendsOf block).map (fun spend => spend.2.1.prevout) =
    (blockTransactions block).tail.flatMap fun tx => tx.vin.map CTxIn.prevout := by
  rw [spendsOf, map_flatMap]
  refine congrArg (flatMap · _) (funext fun tx => ?_)
  conv_rhs => rw [← zipIdx_map_fst 0 tx.vin, map_map]
  rw [spendsOfTx, map_map]
  rfl

/-- By this route a block spends, above the ledger of its ancestors, only what it may. -/
lemma Relayable.authorised {genesis : Uint256} {bodyOf : Uint256 → CBlock} :
    Node.Gives env (spendCharter env genesis bodyOf) (Relayable env) := by
  intro ctx node action hash block pParent sane taken parent route placed spent records
  obtain ⟨above, positive, low⟩ := route.heightAbove_eq sane.kept parent
  have initial := (placed.restores spent records).initial records (route.nodup _ _)
  have keys : (spendsOf block).map (fun spend => spend.2.1.prevout) = spent.map Prod.fst := by
    rw [spentRecords_keys records, consumed_blockEvents, prevouts_spendsOf]
  refine forall₂_of_keys keys fun spend isSpend record isRecord same => ?_
  obtain ⟨tx, inside, isSpend⟩ := mem_flatMap.mp isSpend
  obtain ⟨input, isInput, rfl⟩ := mem_map.mp isSpend
  have isTip : node.chain.pindexTip = some block.hashPrevBlock := route.tip.resolve_right fun alone => by
    rw [alone] at inside
    cases inside
  have reads := reads_of_tip sane isTip
  have accepted := route.accepted tx inside
  rw [above] at accepted
  obtain ⟨reached, passes⟩ := (accepts_sequential reads (route.regular tx inside)).mp accepted
  obtain ⟨entry, found, verified⟩ := passes input isInput
  have own : record.2 = entry := Option.some.inj ((initial record isRecord).symm.trans (same ▸ found))
  obtain ⟨txFee, computed⟩ := reached.inputs
  have kept := (checkTransactionInputs_keeps env _ _ (route.regular tx inside) _ node.chain.utxoSet reads).2 txFee
    computed
  obtain ⟨other, foundToo, checked⟩ := kept.2 input.1 (fst_mem_of_mem_zipIdx isInput)
  cases found.symm.trans foundToo
  refine ⟨same.symm, own ▸ verified, own ▸ isMature_of_checkMaturity ?_ checked⟩
  have path := path_ancestry sane.kept.stepped (some block.hashPrevBlock)
  have acceptedBelow := sane.reflects.accepted
  rw [activeChain, isTip] at acceptedBelow
  obtain ⟨height, lower, atHeight⟩ := nHeight_of_replay sane.kept path acceptedBelow _ entry found
  rw [ancestry_of_lookup sane.kept.stepped parent] at path lower
  rw [map_cons, length_cons] at lower
  have length := sane.kept.nHeight_eq path parent
  rw [atHeight, toNat_ofInt (by omega) (by omega), toNat_ofInt positive.le low]
  omega

end

/-- In every run from the first block on in which the transactions of each block would be accepted for relay where it
is taken in, every block that was connected spends, above the ledger of its ancestors, only outputs whose scripts
verify and that are mature. -/
theorem spends_authorised_of_run (env : Env) (genesis : Uint256) (bodyOf : Uint256 → CBlock) (start node : Node)
    (atGenesis : start.AtGenesis env (Node.freeCharter genesis bodyOf))
    (run : Node.Run env (Node.Routed env genesis bodyOf (Relayable env)) start node) (hash : Uint256) (height : Int)
    (block : CBlock) (connected : ChainEvent.blockConnected hash height block ∈ node.chain.events)
    (above : 0 < height) :
    ∃ below spent, BlockTree.Path node.chain.mapBlockIndex (hash :: below) ∧ (below.length : Int) = height ∧
      spentRecords (node.chain.replay env below).stored (node.chain.replay env below).stored
        (blockEvents env.hashes (UInt32.ofInt height) block) = some spent ∧
      List.Forall₂ (AuthorisedSpend env (UInt32.ofInt height)) (spendsOf block) spent := by
  have kept := (run.inOrder Relayable.authorised atGenesis).kept
  obtain ⟨below, spent, path, length, -, records, law⟩ := kept.law_of_connected connected above
  exact ⟨below, spent, path, length, records, law spent records⟩

theorem claim_spends_authorised : ∃ node below spent,
    Node.Run claimEnv (Node.Routed claimEnv openGenesisHash claimBodies (Relayable claimEnv)) openNode node ∧
    BlockTree.Path node.chain.mapBlockIndex (claimBlockHash :: below) ∧
    spentRecords (node.chain.replay claimEnv below).stored (node.chain.replay claimEnv below).stored
      (blockEvents claimEnv.hashes 1 claimBlock) = some spent ∧ spent.length = 1 ∧
    List.Forall₂ (AuthorisedSpend claimEnv 1) (spendsOf claimBlock) spent := by
  have relayed : ∀ tx ∈ (blockTransactions claimBlock).tail,
      ((checkTransaction claimEnv ⟨0, none⟩ tx 1 openNode.chain.utxoSet).1.toOption).isSome = true := by decide +kernel
  have comes : Relayable claimEnv openContext openNode (.deliver 0 claimBlock none) claimBlockHash claimBlock :=
    { toOnTip := claimBlock_onTip
      accepted := fun tx member => by
        obtain ⟨txFee, accepted⟩ := Option.isSome_iff_exists.mp (relayed tx member)
        exact ⟨txFee, ok_of_toOption accepted⟩ }
  obtain ⟨node, run, connected⟩ := claimBlock_connected comes
  obtain ⟨below, spent, path, -, records, matched⟩ :=
    spends_authorised_of_run claimEnv openGenesisHash claimBodies openNode node
    openNode_atGenesis run claimBlockHash 1 claimBlock connected (by decide)
  refine ⟨node, below, spent, run, path, records, ?_, matched⟩
  rw [← matched.length_eq]
  decide +kernel

/-- The genesis reward is taken without a signature and before it is mature, by a block above the checkpoints
and the assume-valid height. -/
theorem theft_is_connected : ∃ node,
    theftEnv.params.getHighestCheckpointHeight < 1 ∧ theftEnv.params.dfmpAssumeValidHeight < 1 ∧
    (genesisNode theftEnv).processNewBlock theftEnv openContext 0 theftBlock none = some (.accepted, node) ∧
    ChainEvent.blockConnected theftBlockHash 1 theftBlock ∈ node.chain.events ∧
    (genesisNode theftEnv).chain.utxoSet.view theftEnv ⟨genesisRewardHash, 0⟩ =
      some ⟨⟨5000000000, payToKeyHash minerKeyHash⟩, 0, true⟩ ∧
    node.chain.utxoSet.view theftEnv ⟨genesisRewardHash, 0⟩ = none ∧
    CTransactionValidator.verifyScript theftEnv theftTx 0 [] (payToKeyHash minerKeyHash) ≠ .ok () ∧
    (genesisNode theftEnv).chain.utxoSet.isCoinBaseMature theftEnv ⟨genesisRewardHash, 0⟩ 1 = false := by
  have accepted : ((genesisNode theftEnv).processNewBlock theftEnv openContext 0 theftBlock none).any (fun outcome =>
      decide (outcome.1 = .accepted ∧ ChainEvent.blockConnected theftBlockHash 1 theftBlock ∈ outcome.2.chain.events ∧
        outcome.2.chain.utxoSet.view theftEnv ⟨genesisRewardHash, 0⟩ = none)) = true := by
    decide +kernel
  obtain ⟨⟨result, node⟩, outcome, holds⟩ := (Option.any_eq_true _ _).mp accepted
  obtain ⟨rfl, connected, gone⟩ := of_decide_eq_true holds
  exact ⟨node, by exact of_decide_eq_true (by rfl), by decide, outcome, connected, by rfl, gone, by decide, by decide⟩

end Dilithion
