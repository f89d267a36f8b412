import Dilithion.Node.ForkManager
import Dilithion.Chain.Marking

/-! How a block gets from the network to the chain: the phases of `ProcessNewBlock`, the validation queue
with its worker, and the switch to a staged fork. The recursive calls for waiting orphans are kept as tasks
of the node, so that they can be interleaved with the calls of other threads. -/

namespace Dilithion

open Lib CBlockValidator CBlockIndex COrphanManager

inductive BlockProcessResult where
  | accepted
  | acceptedAsync
  | alreadyHave
  | invalidPow
  | orphan
  | dbError
  | chainstateError
  | validationError
  deriving DecidableEq, Repr

structure QueuedBlock where
  block : CBlock
  hash : Uint256
  expectedHeight : Int
  deriving DecidableEq

inductive Task where
  /-- `ResolveOrphanChildren`. -/
  | resolve (parentHash : Uint256)
  /-- Its body, for one child. -/
  | process (orphanHash : Uint256)
  /-- The body of the loop over the children at the end of `ProcessBlock`. -/
  | requeue (orphanHash : Uint256)
  deriving DecidableEq

structure Node where
  chain : CChainState
  orphans : List COrphanBlock
  activeFork : Option ForkCandidate
  queue : List QueuedBlock
  tasks : List Task

def BlockTree.getHeight (t : BlockTree) : Int := t.getTip.elim (-1) nHeight

namespace BlockProcessing

variable (params : ChainParams) (env : Env) (ctx : NodeContext) (s : CChainState) (t : BlockTree)
  (node : Node) (hash : Uint256)
  (block : CBlock)

def skipPoWCheck : Bool :=
  decide (0 < params.getHighestCheckpointHeight) && decide (t.getHeight < params.getHighestCheckpointHeight)

def expectedHeight (headers : CHeadersManager) (t : BlockTree) (block : CBlock) : Int :=
  match t.getBlockIndex block.hashPrevBlock with
  | some pParent => pParent.nHeight + 1
  | none =>
    let parentHeight := headers.getHeightForHash block.hashPrevBlock
    if 0 ≤ parentHeight then parentHeight + 1 else parentHeight

def hashFromHeaders : Uint256 :=
  match ctx.headersManager with
  | none => .null
  | some headers =>
    if 0 < expectedHeight headers t block then headers.getRandomXHashAtHeight (expectedHeight headers t block)
    else .null

/-- The hash the block is processed under. Only the last resort looks at the block itself. -/
def blockHash (precomputed : Option Uint256) : Uint256 :=
  let given := precomputed.getD .null
  let known := if given.isNull then hashFromHeaders ctx t block else given
  if known.isNull then block.toCBlockHeader.getHash env.hashes else known

def blockHeight : Int :=
  match t.getBlockIndex block.hashPrevBlock, ctx.headersManager with
  | some pParent, _ => pParent.nHeight + 1
  | none, some headers =>
    let parentHeight := headers.getHeightForHash block.hashPrevBlock
    if 0 ≤ parentHeight then parentHeight + 1 else t.getHeight + 1
  | none, none => t.getHeight + 1

def heightAbove : Int :=
  (t.getBlockIndex block.hashPrevBlock).elim (t.getHeight + 1) fun pParent => pParent.nHeight + 1

inductive WorkVerdict where
  | valid
  | invalid
  | failedDFMP
  deriving DecidableEq, Repr

/-- The difficulty and the identity of the miner are checked on the active chain only. -/
def checkWork : WorkVerdict :=
  match (t.getBlockIndex block.hashPrevBlock).filter validChain with
  | none => if !block.toCBlockHeader.isVDFBlock && !ctx.checkProofOfWork hash block.nBits then .invalid else .valid
  | some _ =>
    if block.nBits ≠ ctx.getNextWorkRequired block.hashPrevBlock block.nTime then .invalid
    else if ctx.checkProofOfWorkDFMP block hash (blockHeight ctx t block) then .valid
    else .failedDFMP

def checkTimestamp : Bool :=
  (t.getBlockIndex block.hashPrevBlock).all fun pParent =>
    if params.timestampValidationHeight ≤ pParent.nHeight + 1 ∧ params.dfmpAssumeValidHeight < pParent.nHeight + 1 then
      ctx.checkBlockTimestamp block block.hashPrevBlock (pParent.nHeight + 1)
    else true

structure FeeTotal where
  totalFees : UInt64
  feeCalcReliable : Bool
  set : CUTXOSet

def addFee (height : UInt32) (total : FeeTotal) (tx : CTransaction) : FeeTotal :=
  match CTransactionValidator.checkTransactionInputs env ctx.validation tx height total.set with
  | (.ok txFee, set) =>
    { total with totalFees := if 0 < txFee then total.totalFees + txFee.toUInt64 else total.totalFees, set := set }
  | (.error _, set) => { total with feeCalcReliable := false, set := set }

def mentions (part text : String) : Bool := decide (part.toList <:+: text.toList)

/-- Without reliable fees the value of the coinbase is not checked: "deferring coinbase value check to
ConnectTip". -/
def acceptsCoinbase (coinbase : CTransaction) (height : UInt32) (fees : FeeTotal) : Bool :=
  if fees.feeCalcReliable then
    match checkCoinbase params coinbase height fees.totalFees.toInt64 with
    | .ok () => true
    | .error _ => false
  else
    match checkCoinbase params coinbase height Int64.maxValue with
    | .ok () => true
    | .error structError => mentions "exceeds subsidy" structError

def validateCoinbase : Bool × CUTXOSet :=
  let height := UInt32.ofInt (heightAbove s.toBlockTree block)
  match deserializeBlockTransactions block with
  | .error _ => (false, s.utxoSet)
  | .ok [] => (false, s.utxoSet)
  | .ok (coinbase :: rest) =>
    let fees := rest.foldl (addFee env ctx height) ⟨0, true, s.utxoSet⟩
    (acceptsCoinbase env.params coinbase height fees, fees.set)

def checkRules (lenient : Bool) : Except (BlockProcessResult × CChainState) CChainState :=
  if !checkTimestamp env.params ctx s.toBlockTree block then .error (.validationError, s)
  else if env.params.isTestnet || lenient then .ok s
  else
    match validateCoinbase env ctx s block with
    | (true, set) => .ok { s with utxoSet := set }
    | (false, set) => .error (.validationError, { s with utxoSet := set })

/-- The checks made before anything is stored; they are `lenient` below the checkpoints and for blocks
that the staged fork has pre-validated. -/
def checkBlock (lenient : Bool) : Except (BlockProcessResult × CChainState) CChainState :=
  match lenient, checkWork ctx s.toBlockTree hash block with
  | false, .invalid => .error (.invalidPow, s)
  | false, .failedDFMP => .error (.invalidPow, s.modifyIndex hash (raise blockFailedValid))
  | _, _ => checkRules env ctx s block lenient

/-- Up to the duplicate checks; a block that passes may be one of the staged fork. -/
def screen : Except (BlockProcessResult × Node) (Bool × Node) :=
  let t := node.chain.toBlockTree
  let skip := skipPoWCheck env.params t
  if !skip && ctx.isBanned block then .error (.validationError, node)
  else
    match ForkManager.stage env ctx t node.activeFork hash block (blockHeight ctx t block) with
    | (.failed, fork) => .error (.invalidPow, { node with activeFork := fork })
    | (.staged isForkBlock forkPreValidated, fork) =>
      match checkBlock env ctx node.chain hash block (skip || forkPreValidated) with
      | .error (result, chain) => .error (result, { node with activeFork := fork, chain := chain })
      | .ok chain => .ok (isForkBlock, { node with activeFork := fork, chain := chain })

/-- `WriteBlock`; `none` if it fails. -/
def writeBlock : Option CChainState :=
  if decide (block.vtx.length ≤ Consensus.maxBlockSize) && ctx.writeBlock hash block then
    some { s with blocks := s.blocks.insert hash block }
  else none

def ensureWritten : Option CChainState :=
  if (s.blocks.lookup hash).isSome then some s else writeBlock ctx s hash block

def checkBody (H : HashFunctions) (block : CBlock) : Check := do
  let transactions ← deserializeBlockTransactions block
  verifyMerkleRoot H block transactions
  checkNoDuplicateTransactions H transactions
  checkNoDoubleSpends transactions

def holdOrphan (peer : Int) (block : CBlock) : BlockProcessResult × Node :=
  match checkBody env.hashes block with
  | .error _ => (.validationError, node)
  | .ok () =>
    (.orphan, { node with
      orphans := (addOrphanBlock env.hashes ctx.selectOrphanForEviction node.orphans peer block).2 })

def maxQueueDepth : Nat := 100

def queuedWork (block : CBlock) (height : Int) (hash : Uint256) : Bool :=
  match (t.getBlockIndex block.hashPrevBlock).filter validChain with
  | none => block.toCBlockHeader.isVDFBlock || ctx.checkProofOfWork hash block.nBits
  | some _ => decide (block.nBits = ctx.getNextWorkRequired block.hashPrevBlock block.nTime) &&
      ctx.checkProofOfWorkDFMP block hash height

/-- `QueueBlock`; `none` if the block is not taken. -/
def queueBlock (block : CBlock) (expectedHeight : Int) (hash : Uint256) : Option Node :=
  let t := node.chain.toBlockTree
  let height := if 0 < expectedHeight then expectedHeight else t.getHeight + 1
  if maxQueueDepth ≤ node.queue.length then none
  else if !skipPoWCheck env.params t && !queuedWork ctx t block height hash then none
  else if (t.getBlockIndex hash).any fun existing => existing.haveData && existing.validChain then none
  else some { node with queue := node.queue ++ [⟨block, hash, expectedHeight⟩] }

def triggerChainSwitch : Bool × Node :=
  match node.activeFork with
  | none => (false, node)
  | some fork =>
    let tipHeight := fork.getHighestPrevalidatedHeight
    if !fork.allReceivedBlocksPrevalidated || decide (tipHeight < 0) then (false, node)
    else
      match fork.getBlockAtHeight tipHeight with
      | none => (false, node)
      | some tipBlock =>
        if (node.chain.getBlockIndex tipBlock.hash).isNone then (false, node)
        else
          let outcome := node.chain.activateBestChain env ctx.world ctx.now tipBlock.hash tipBlock.block
          (outcome.1.returns, { node with chain := outcome.2, activeFork := none })

def sweep (forkPointHeight : Int) : List Task :=
  ((t.ancestry t.pindexTip).takeWhile fun entry => decide (forkPointHeight < entry.2.nHeight)).map
    fun entry => .resolve entry.1

def activateFork (fork : ForkCandidate) (hash : Uint256) : BlockProcessResult × Node :=
  if fork.allReceivedBlocksPrevalidated && ForkManager.forkHasMoreWork node.chain.toBlockTree fork then
    match triggerChainSwitch env ctx node with
    | (true, node) =>
      (.accepted, { node with tasks := sweep node.chain.toBlockTree fork.forkPointHeight ++ node.tasks })
    | (false, node) => (.validationError, node)
  else (.acceptedAsync, { node with tasks := .resolve hash :: node.tasks })

def activate (following : List Task) : BlockProcessResult × Node :=
  let outcome := node.chain.activateBestChain env ctx.world ctx.now hash block
  if outcome.1.returns then (.accepted, { node with chain := outcome.2, tasks := following ++ node.tasks })
  else (.validationError, { node with chain := outcome.2 })

/-- The last two phases: the queue while the node is far behind its headers, else activation. -/
def route (height : Int) (isForkBlock : Bool) : BlockProcessResult × Node :=
  let chainHeight := node.chain.getHeight
  let headerHeight := ctx.headersManager.elim chainHeight CHeadersManager.getBestHeight
  let useAsyncValidation := ctx.validationQueueRunning && decide (10 < headerHeight - chainHeight) && !isForkBlock
  match (if useAsyncValidation then queueBlock env ctx node block height hash else none),
      node.activeFork.filter fun _ => isForkBlock with
  | some queued, _ => (.acceptedAsync, queued)
  | none, some fork => activateFork env ctx node fork hash
  | none, none => activate env ctx node hash block [.resolve hash]

/-- The index entry of a new block; `none` when a consensus invariant aborts the process. -/
def indexBlock (pParent : CBlockIndex) (isForkBlock : Bool) : Option (BlockProcessResult × Node) :=
  if !ctx.writeBlockIndex hash then some (.dbError, node)
  else
    (node.chain.addBlockIndex hash (received block pParent ctx.address)).map fun tree =>
      route env ctx { node with chain := { node.chain with toBlockTree := tree } } hash block
        (pParent.nHeight + 1) isForkBlock

def persist (peer : Int) (hash : Uint256) (block : CBlock) (isForkBlock : Bool) : Option (BlockProcessResult × Node) :=
  match ensureWritten ctx node.chain hash block with
  | none => some (.dbError, node)
  | some chain =>
    match chain.getBlockIndex block.hashPrevBlock with
    | none => some (holdOrphan env ctx { node with chain := chain } peer block)
    | some pParent => indexBlock env ctx { node with chain := chain } hash block pParent isForkBlock

def retry : BlockProcessResult × Node :=
  match ensureWritten ctx node.chain hash block with
  | none => (.dbError, node)
  | some chain => activate env ctx { node with chain := chain } hash block []

def duplicate : Option BlockProcessResult :=
  let blockInDb := (s.blocks.lookup hash).isSome
  match s.getBlockIndex hash with
  | some pindex =>
    if pindex.haveData then
      if pindex.isInvalid then some .validationError else if pindex.validChain then some .alreadyHave else none
    else if blockInDb then some .alreadyHave
    else none
  | none => if blockInDb && (s.getBlockIndex block.hashPrevBlock).isNone then some .orphan else none

def place (peer : Int) (hash : Uint256) (block : CBlock) (isForkBlock : Bool) : Option (BlockProcessResult × Node) :=
  match duplicate node.chain hash block with
  | some result => some (result, node)
  | none =>
    if (node.chain.getBlockIndex hash).any haveData then some (retry env ctx node hash block)
    else persist env ctx node peer hash block isForkBlock

end BlockProcessing

namespace Node

open BlockProcessing

variable (env : Env) (ctx : NodeContext) (node : Node) (peer : Int)

/-- `none` when a consensus invariant aborts the process. -/
def processNewBlock (block : CBlock) (precomputed : Option Uint256) : Option (BlockProcessResult × Node) :=
  let hash := blockHash env ctx node.chain.toBlockTree block precomputed
  match screen env ctx node hash block with
  | .error outcome => some outcome
  | .ok (isForkBlock, node) => place env ctx node peer hash block isForkBlock

def ensureIndexed (s : CChainState) (hash : Uint256) (block : CBlock) : Option (Bool × CChainState) :=
  match s.getBlockIndex hash, s.getBlockIndex block.hashPrevBlock with
  | some _, _ => some (true, s)
  | none, none => some (false, s)
  | none, some pParent =>
    if !ctx.writeBlockIndex hash then some (false, s)
    else
      (s.addBlockIndex hash (received block pParent ctx.address)).map fun tree =>
        (true, { s with toBlockTree := tree })

def processBlock (queued : QueuedBlock) : Option Node :=
  match ensureWritten ctx node.chain queued.hash queued.block with
  | none => some node
  | some chain =>
    (ensureIndexed ctx chain queued.hash queued.block).map fun
      | (false, chain) => { node with chain := chain }
      | (true, chain) =>
        let children := (getOrphanChildren node.orphans queued.hash).map Task.requeue
        (activate env ctx { node with chain := chain } queued.hash queued.block children).2

def requeueOrphan (orphanHash : Uint256) (block : CBlock) : Option Node :=
  let hash := block.toCBlockHeader.getHash env.hashes
  let erased := eraseOrphanBlock node.orphans orphanHash
  match node.chain.getBlockIndex block.hashPrevBlock with
  | none => some node
  | some pParent =>
    if (node.chain.getBlockIndex hash).isSome then some { node with orphans := erased }
    else
      match writeBlock ctx node.chain hash block with
      | none => some node
      | some chain =>
        (chain.addBlockIndex hash (received block pParent ctx.address)).map fun tree =>
          let node := { node with chain := { chain with toBlockTree := tree } }
          if !ctx.writeBlockIndex hash then node
          else
            match queueBlock env ctx node block (pParent.nHeight + 1) hash with
            | none => node
            | some queued => { queued with orphans := erased }

def perform : Task → Option Node
  | .resolve parentHash =>
    some { node with tasks := (getOrphanChildren node.orphans parentHash).map .process ++ node.tasks }
  | .process orphanHash =>
    match getOrphanBlock node.orphans orphanHash with
    | none => some node
    | some block =>
      let node := { node with orphans := eraseOrphanBlock node.orphans orphanHash }
      (node.processNewBlock env ctx (-1) block (some (block.toCBlockHeader.getHash env.hashes))).map Prod.snd
  | .requeue orphanHash =>
    match getOrphanBlock node.orphans orphanHash with
    | none => some node
    | some block => node.requeueOrphan env ctx orphanHash block

/-- What can happen next: a block arrives, a task is taken up, the worker takes a block from the queue, or
a fork is staged or given up. -/
inductive Action where
  | deliver (peer : Int) (block : CBlock) (precomputed : Option Uint256)
  | resume (task : Nat)
  | work (entry : Nat)
  | createForkCandidate (forkPointHeight expectedTipHeight : Int) (expectedHashes : Table Int Uint256)
  | cancelFork

def isTop (queue : List QueuedBlock) (queued : QueuedBlock) : Bool :=
  queue.all fun other => decide (queued.expectedHeight ≤ other.expectedHeight)

/-- `none` when the process aborts, or when there is nothing to take up. -/
def step : Action → Option Node
  | .deliver peer block precomputed => (node.processNewBlock env ctx peer block precomputed).map Prod.snd
  | .resume task => node.tasks[task]?.bind fun chosen =>
    { node with tasks := node.tasks.eraseIdx task }.perform env ctx chosen
  | .work entry => (node.queue[entry]?.filter (isTop node.queue)).bind fun queued =>
    { node with queue := node.queue.eraseIdx entry }.processBlock env ctx queued
  | .createForkCandidate forkPointHeight expectedTipHeight expectedHashes =>
    some { node with
      activeFork := ForkManager.createForkCandidate node.activeFork forkPointHeight expectedTipHeight expectedHashes }
  | .cancelFork => some { node with activeFork := none }

end Node

/-! What a step of the node can do to the chain state: look outputs up, flag an entry, write a body, add an
entry, and at last activate a block. A property that survives each of these survives the step; the bodies
that get written, queued or activated are those the step was given or the node held before. -/

open BlockProcessing ForkManager Node Option

structure Screening (env : Env) (before : CChainState → Prop) : Prop where
  looked : ∀ {s} outpoint, before s → before { s with utxoSet := (s.utxoSet.getUTXO env outpoint).2 }
  failed : ∀ {s} hash, before s → before (s.modifyIndex hash (CBlockIndex.raise CBlockIndex.blockFailedValid))

/-- Which bodies may be activated, queued, and held as orphans. -/
structure Bodies where
  good : Uint256 → CBlock → Prop
  queueable : Uint256 → CBlock → Prop
  pooled : CBlock → Prop

/-- Taking in `block` under `hash` keeps `before` up to the activation and ends in `after`. -/
structure Handling (env : Env) (ctx : NodeContext) (bodies : Bodies)
    (before after : CChainState → Prop) (hash : Uint256)
    (block : CBlock) : Prop where
  known : bodies.good hash block
  queues : ∀ {s}, before s → (s.getBlockIndex hash).isSome = true → bodies.queueable hash block
  pools : checkBody env.hashes block = .ok () → bodies.pooled block
  left : ∀ {s}, before s → after s
  written : ∀ {s}, before s → before { s with blocks := s.blocks.insert hash block }
  /-- An entry that is there already had no body when the call began. -/
  indexed : ∀ {s pParent tree}, before s → (s.blocks.lookup hash).isSome = true →
    s.getBlockIndex block.hashPrevBlock = some pParent →
    (s.getBlockIndex hash = none ∨
      ∃ earlier, before earlier ∧ (earlier.getBlockIndex hash).isSome = true ∧ earlier.blocks.lookup hash = none) →
    s.addBlockIndex hash (CBlockIndex.received block pParent ctx.address) = some tree →
    before { s with toBlockTree := tree }
  activated : ∀ {s other body}, before s → bodies.good other body → (s.getBlockIndex other).isSome = true →
    after (s.activateBestChain env ctx.world ctx.now other body).2

structure Sourced (bodies : Bodies) (node : Node) : Prop where
  queue : ∀ queued ∈ node.queue, bodies.queueable queued.hash queued.block
  fork : ∀ fork ∈ node.activeFork, ∀ hash block, fork.Holds hash block → bodies.good hash block
  orphans : ∀ orphan ∈ node.orphans, bodies.pooled orphan.block

def Ends (bodies : Bodies) (after : CChainState → Prop) (node : Node) : Prop := after node.chain ∧ Sourced bodies node

/-- Without a staged fork, the block is refused by the checks or as a duplicate. -/
def Node.drops (env : Env) (ctx : NodeContext) (s : CChainState) (hash : Uint256) (block : CBlock) : Bool :=
  let skip := skipPoWCheck env.params s.toBlockTree
  (!skip && ctx.isBanned block) ||
    match checkBlock env ctx s hash block skip with
    | .error _ => true
    | .ok t => (duplicate t hash block).isSome

section

variable {env : Env} {ctx : NodeContext} {bodies : Bodies} {before after : CChainState → Prop} {hash : Uint256}
  {block : CBlock} {node next : Node} {s t : CChainState}

section

variable (sourced : Sourced bodies node)

include sourced

lemma Sourced.withChain (s : CChainState) : Sourced bodies { node with chain := s } :=
  ⟨sourced.queue, sourced.fork, sourced.orphans⟩

lemma Sourced.withTasks (tasks : List Task) : Sourced bodies { node with tasks := tasks } :=
  ⟨sourced.queue, sourced.fork, sourced.orphans⟩

lemma Sourced.withoutFork : Sourced bodies { node with activeFork := none } :=
  ⟨sourced.queue, nofun, sourced.orphans⟩

lemma Sourced.eraseOrphan (orphanHash : Uint256) :
    Sourced bodies { node with orphans := eraseOrphanBlock node.orphans orphanHash } :=
  ⟨sourced.queue, sourced.fork, fun orphan member =>
    sourced.orphans orphan (mem_of_mem_eraseOrphanBlock member)⟩

lemma Sourced.orphan {orphanHash : Uint256} {body : CBlock}
    (found : getOrphanBlock node.orphans orphanHash = some body) : bodies.pooled body := by
  obtain ⟨orphan, member, -, rfl⟩ := mem_of_getOrphanBlock found
  exact sourced.orphans orphan member

lemma queueBlock_sourced (known : bodies.queueable hash block) {height : Int}
    (taken : queueBlock env ctx node block height hash = some next) :
    Sourced bodies next ∧ next.chain = node.chain := by
  simp only [queueBlock, ite_none_left_eq_some, some.injEq] at taken
  obtain ⟨-, -, -, rfl⟩ := taken
  refine ⟨⟨fun queued member => ?_, sourced.fork, sourced.orphans⟩, rfl⟩
  rcases List.mem_append.mp member with old | new
  · exact sourced.queue queued old
  · cases List.mem_singleton.mp new
    exact known

end

namespace Screening

variable (screening : Screening env before)

include screening

lemma addFees (holds : before s) (height : UInt32) (transactions : List CTransaction) (total : FeeTotal)
    (same : total.set = s.utxoSet) :
    before { s with utxoSet := (transactions.foldl (addFee env ctx height) total).set } := by
  have looks : ∀ set outpoint, before { s with utxoSet := set } →
      before { s with utxoSet := (set.getUTXO env outpoint).2 } :=
    fun _ outpoint good => screening.looked outpoint good
  have start : before { s with utxoSet := total.set } := by rwa [same]
  clear same
  induction transactions generalizing total with
  | nil => exact start
  | cons tx rest ih =>
    apply ih
    have after := (CTransactionValidator.checkTransactionInputs_looks looks ctx.validation tx height total.set start).1
    unfold addFee
    split
    next result outcome => rwa [outcome] at after
    next result outcome => rwa [outcome] at after

lemma validateCoinbase (holds : before s) (block : CBlock) :
    before { s with utxoSet := (validateCoinbase env ctx s block).2 } := by
  unfold BlockProcessing.validateCoinbase
  split
  · exact holds
  · exact holds
  · exact screening.addFees holds _ _ _ rfl

omit screening in
def chainOf : Except (BlockProcessResult × CChainState) CChainState → CChainState
  | .error outcome => outcome.2
  | .ok t => t

lemma checkRules (holds : before s) (block : CBlock) (lenient : Bool) :
    before (chainOf (checkRules env ctx s block lenient)) := by
  have checked : before { s with utxoSet := (BlockProcessing.validateCoinbase env ctx s block).2 } :=
    screening.validateCoinbase holds block
  unfold BlockProcessing.checkRules
  split
  · exact holds
  · split
    · exact holds
    · split <;> rename_i outcome <;> rwa [outcome] at checked

lemma checkBlock (holds : before s) (hash : Uint256) (block : CBlock) (lenient : Bool) :
    before (chainOf (checkBlock env ctx s hash block lenient)) := by
  unfold BlockProcessing.checkBlock
  split
  · exact holds
  · exact screening.failed hash holds
  · exact screening.checkRules holds block _

omit screening in
def nodeOf : Except (BlockProcessResult × Node) (Bool × Node) → Node
  | .error outcome => outcome.2
  | .ok outcome => outcome.2

lemma screen (holds : before node.chain) (sourced : Sourced bodies node)
    (known : node.activeFork = none ∨ bodies.good hash block) :
    Ends bodies before (nodeOf (screen env ctx node hash block)) := by
  unfold BlockProcessing.screen
  dsimp only
  have staged : ∀ fork ∈ (stage env ctx node.chain.toBlockTree node.activeFork hash block
      (blockHeight ctx node.chain.toBlockTree block)).2, ∀ other body, fork.Holds other body →
          bodies.good other body := by
    intro fork left other body held
    rcases known with idle | known
    · rw [idle] at left
      cases left
    · rcases holds_stage left held with ⟨earlier, isActive, heldBefore⟩ | ⟨rfl, rfl⟩
      · exact sourced.fork earlier isActive other body heldBefore
      · exact known
  split
  · exact ⟨holds, sourced⟩
  · split
    next fork outcome =>
      rw [outcome] at staged
      exact ⟨holds, sourced.queue, staged, sourced.orphans⟩
    next isForkBlock forkPreValidated fork outcome =>
      rw [outcome] at staged
      have checked : before (chainOf (BlockProcessing.checkBlock env ctx node.chain hash block
          (skipPoWCheck env.params node.chain.toBlockTree || forkPreValidated))) :=
        screening.checkBlock holds hash block _
      split <;> rename_i result <;> rw [result] at checked <;>
        exact ⟨checked, sourced.queue, staged, sourced.orphans⟩

omit screening in
/-- What passes without a staged fork though it is to be dropped is a duplicate. -/
lemma duplicate_of_drops {passing : Bool × Node} (idle : node.activeFork = none)
    (drop : drops env ctx node.chain hash block = true)
    (passed : BlockProcessing.screen env ctx node hash block = .ok passing) :
    (duplicate passing.2.chain hash block).isSome = true := by
  unfold drops at drop
  unfold BlockProcessing.screen at passed
  simp only [idle, stage, Bool.or_false] at passed drop
  split at passed
  · cases passed
  next allowed =>
    rw [Bool.not_eq_true] at allowed
    rw [allowed, Bool.false_or] at drop
    split at passed
    · cases passed
    next chain checked =>
      cases passed
      simpa only [checked] using drop

end Screening

namespace Handling

variable (handling : Handling env ctx bodies before after hash block)

include handling

lemma writeBlock (holds : before s) (result : writeBlock ctx s hash block = some t) :
    before t ∧ t = { s with blocks := s.blocks.insert hash block } := by
  unfold BlockProcessing.writeBlock at result
  split at result
  · cases result
    exact ⟨handling.written holds, rfl⟩
  · cases result

lemma ensureWritten (holds : before s) (result : ensureWritten ctx s hash block = some t) :
    before t ∧ t.toBlockTree = s.toBlockTree ∧ (t.blocks.lookup hash).isSome = true := by
  unfold BlockProcessing.ensureWritten at result
  split at result
  next there =>
    cases result
    exact ⟨holds, rfl, there⟩
  · obtain ⟨written, rfl⟩ := handling.writeBlock holds result
    exact ⟨written, rfl, by simp⟩

lemma ensureIndexed {found : Bool} (holds : before s) (stored : (s.blocks.lookup hash).isSome = true)
    (result : ensureIndexed ctx s hash block = some (found, t)) :
    before t ∧ (found = true → (t.getBlockIndex hash).isSome = true) := by
  unfold Node.ensureIndexed at result
  split at result
  next atHash =>
    cases result
    exact ⟨holds, fun _ => by simp [atHash]⟩
  · cases result
    exact ⟨holds, nofun⟩
  next pParent unknown parent =>
    split at result
    · cases result
      exact ⟨holds, nofun⟩
    · obtain ⟨tree, added, same⟩ := map_eq_some_iff.mp result
      cases same
      obtain ⟨-, -, atHash, -⟩ := BlockTree.addBlockIndex_lookup added
      exact ⟨handling.indexed holds stored parent (.inl unknown) added,
        fun _ => by simp [BlockTree.getBlockIndex, atHash]⟩

variable (holds : before node.chain) (sourced : Sourced bodies node)

include holds sourced

lemma ends : Ends bodies after node :=
  ⟨handling.left holds, sourced⟩

lemma activate (known : (node.chain.getBlockIndex hash).isSome = true) (following : List Task) :
    Ends bodies after (activate env ctx node hash block following).2 := by
  have activated := handling.activated holds handling.known known
  unfold BlockProcessing.activate
  dsimp only
  split
  · exact ⟨activated, (sourced.withChain _).withTasks _⟩
  · exact ⟨activated, sourced.withChain _⟩

lemma triggerChainSwitch : Ends bodies after (triggerChainSwitch env ctx node).2 := by
  have same := handling.ends holds sourced
  unfold BlockProcessing.triggerChainSwitch
  split
  · exact same
  next fork isActive =>
    dsimp only
    split
    · exact same
    · split
      · exact same
      next tipBlock found =>
        split
        · exact same
        next indexed =>
          have held := sourced.fork fork isActive tipBlock.hash tipBlock.block ⟨_, tipBlock, found, rfl, rfl⟩
          have activated := handling.activated holds held (isSome_iff_ne_none.mpr (by simpa using indexed))
          exact ⟨activated, (sourced.withChain _).withoutFork⟩

lemma activateFork (fork : ForkCandidate) : Ends bodies after (activateFork env ctx node fork hash).2 := by
  have switched := handling.triggerChainSwitch holds sourced
  unfold BlockProcessing.activateFork
  split
  · split
    next moved outcome =>
      rw [outcome] at switched
      exact ⟨switched.1, switched.2.withTasks _⟩
    next stayed outcome => rwa [outcome] at switched
  · exact handling.ends holds (sourced.withTasks _)

lemma route (known : (node.chain.getBlockIndex hash).isSome = true) (height : Int) (isForkBlock : Bool) :
    Ends bodies after (route env ctx node hash block height isForkBlock).2 := by
  unfold BlockProcessing.route
  dsimp only
  split
  next queued _ taken =>
    split at taken
    · obtain ⟨queuedSourced, sameChain⟩ := queueBlock_sourced sourced (handling.queues holds known) taken
      exact handling.ends (sameChain ▸ holds) queuedSourced
    · cases taken
  next fork _ _ => exact handling.activateFork holds sourced fork
  · exact handling.activate holds sourced known _

variable {isForkBlock : Bool} {outcome : BlockProcessResult × Node}

lemma indexBlock {pParent : CBlockIndex}
    (stored : (node.chain.blocks.lookup hash).isSome = true)
    (parent : node.chain.getBlockIndex block.hashPrevBlock = some pParent)
    (new : node.chain.getBlockIndex hash = none ∨
      ∃ earlier, before earlier ∧ (earlier.getBlockIndex hash).isSome = true ∧ earlier.blocks.lookup hash = none)
    (result : indexBlock env ctx node hash block pParent isForkBlock = some outcome) :
    Ends bodies after outcome.2 := by
  unfold BlockProcessing.indexBlock at result
  split at result
  · cases result
    exact handling.ends holds sourced
  · obtain ⟨tree, added, rfl⟩ := map_eq_some_iff.mp result
    obtain ⟨-, -, atHash, -⟩ := BlockTree.addBlockIndex_lookup added
    have known : (tree.getBlockIndex hash).isSome = true := by simp [BlockTree.getBlockIndex, atHash]
    have holdsNext : before { node.chain with toBlockTree := tree } := handling.indexed holds stored parent new added
    have sourcedNext := sourced.withChain { node.chain with toBlockTree := tree }
    exact handling.route holdsNext sourcedNext known _ _

lemma holdOrphan (peer : Int) : Ends bodies after (holdOrphan env ctx node peer block).2 := by
  unfold BlockProcessing.holdOrphan
  split
  · exact handling.ends holds sourced
  next passed =>
    refine handling.ends holds ⟨sourced.queue, sourced.fork, fun orphan member => ?_⟩
    rcases mem_of_mem_addOrphanBlock member with old | ⟨same, -⟩
    · exact sourced.orphans orphan old
    · exact same ▸ handling.pools passed

variable {peer : Int}

lemma persist (new : node.chain.getBlockIndex hash = none ∨
      (node.chain.getBlockIndex hash).isSome = true ∧ node.chain.blocks.lookup hash = none)
    (result : persist env ctx node peer hash block isForkBlock = some outcome) : Ends bodies after outcome.2 := by
  unfold BlockProcessing.persist at result
  split at result
  · cases result
    exact handling.ends holds sourced
  next chain written =>
    obtain ⟨holdsNext, sameTree, stored⟩ := handling.ensureWritten holds written
    have sourcedNext := sourced.withChain chain
    split at result
    · cases result
      exact handling.holdOrphan holdsNext sourcedNext peer
    next pParent parent =>
      refine handling.indexBlock holdsNext sourcedNext stored parent ?_ result
      rcases new with unknown | ⟨known, bare⟩
      · exact .inl (by simpa only [sameTree] using unknown)
      · exact .inr ⟨node.chain, holds, known, bare⟩

lemma retry
    (known : (node.chain.getBlockIndex hash).isSome = true) : Ends bodies after (retry env ctx node hash block).2 := by
  unfold BlockProcessing.retry
  split
  · exact handling.ends holds sourced
  next chain written =>
    obtain ⟨holdsNext, sameTree, -⟩ := handling.ensureWritten holds written
    exact handling.activate holdsNext (sourced.withChain chain) (by simpa only [sameTree] using known) []

lemma place
    (result : place env ctx node peer hash block isForkBlock = some outcome) : Ends bodies after outcome.2 := by
  unfold BlockProcessing.place at result
  split at result
  · cases result
    exact handling.ends holds sourced
  next fresh =>
    split at result
    next hasData =>
      cases result
      exact handling.retry holds sourced (isSome_of_any hasData)
    next noData =>
      refine handling.persist holds sourced ?_ result
      cases found : node.chain.getBlockIndex hash with
      | none => exact .inl rfl
      | some pindex =>
        -- an entry without data and with a body in the database would have been a duplicate
        simp only [found, any_some, Bool.not_eq_true] at noData
        simpa [duplicate, found, noData] using fresh

lemma processBlock {height : Int}
    (result : node.processBlock env ctx ⟨block, hash, height⟩ = some next) : Ends bodies after next := by
  unfold Node.processBlock at result
  split at result
  · cases result
    exact handling.ends holds sourced
  next chain written =>
    obtain ⟨holdsNext, -, stored⟩ := handling.ensureWritten holds written
    obtain ⟨⟨found, s⟩, indexing, rfl⟩ := map_eq_some_iff.mp result
    obtain ⟨holdsLast, known⟩ := handling.ensureIndexed holdsNext stored indexing
    have sourcedLast := sourced.withChain s
    cases found with
    | false => exact handling.ends holdsLast sourcedLast
    | true =>
      refine handling.activate ?_ sourcedLast ?_ _
      · exact holdsLast
      · exact known rfl

lemma requeueOrphan {orphanHash : Uint256} (identity : block.toCBlockHeader.getHash env.hashes = hash)
    (result : node.requeueOrphan env ctx orphanHash block = some next) : Ends bodies after next := by
  unfold Node.requeueOrphan at result
  simp only [identity] at result
  split at result
  · cases result
    exact handling.ends holds sourced
  next pParent parent =>
    split at result
    · cases result
      exact handling.ends holds (sourced.eraseOrphan orphanHash)
    next unknown =>
      split at result
      · cases result
        exact handling.ends holds sourced
      next chain written =>
        obtain ⟨holdsNext, rfl⟩ := handling.writeBlock holds written
        obtain ⟨tree, added, rfl⟩ := map_eq_some_iff.mp result
        have holdsLast : before { node.chain with
            toBlockTree := tree, blocks := node.chain.blocks.insert hash block } :=
          handling.indexed holdsNext (by simp) parent (.inl (by simpa using unknown)) added
        have sourcedLast := sourced.withChain
          { node.chain with toBlockTree := tree, blocks := node.chain.blocks.insert hash block }
        split
        · exact handling.ends holdsLast sourcedLast
        · split
          · exact handling.ends holdsLast sourcedLast
          next queued taken =>
            obtain ⟨-, -, atHash, -⟩ := BlockTree.addBlockIndex_lookup added
            have known : (tree.getBlockIndex hash).isSome = true := by simp [BlockTree.getBlockIndex, atHash]
            obtain ⟨queuedSourced, sameChain⟩ := queueBlock_sourced sourcedLast (handling.queues holdsLast known) taken
            refine ⟨?_, queuedSourced.queue, queuedSourced.fork, (sourced.eraseOrphan orphanHash).orphans⟩
            rw [sameChain]
            exact handling.left holdsLast

end Handling

namespace Node

/-- The block that an action works on, with the hash it works on it under, and whether it is screened first. -/
def subject (env : Env) (ctx : NodeContext) (node : Node) : Action → Option (Uint256 × CBlock × Bool)
  | .deliver _ block precomputed => some (blockHash env ctx node.chain.toBlockTree block precomputed, block, true)
  | .resume task => node.tasks[task]?.bind fun
      | .resolve _ => none
      | .process orphanHash => (getOrphanBlock node.orphans orphanHash).map fun block =>
        (blockHash env ctx node.chain.toBlockTree block (some (block.toCBlockHeader.getHash env.hashes)), block, true)
      | .requeue orphanHash => (getOrphanBlock node.orphans orphanHash).map fun block =>
        (block.toCBlockHeader.getHash env.hashes, block, false)
  | .work entry => node.queue[entry]?.map fun queued => (queued.hash, queued.block, false)
  | .createForkCandidate _ _ _ => none
  | .cancelFork => none

def TakesIn (env : Env) (ctx : NodeContext) (node : Node) (action : Action) (hash : Uint256) (block : CBlock) : Prop :=
  ∃ screened, node.subject env ctx action = some (hash, block, screened) ∧
    ¬ (screened = true ∧ node.activeFork = none ∧ drops env ctx node.chain hash block = true)

lemma TakesIn.unique {action : Action} {otherHash : Uint256} {other : CBlock}
    (taken : node.TakesIn env ctx action hash block)
    (also : node.TakesIn env ctx action otherHash other) : otherHash = hash ∧ other = block := by
  obtain ⟨screened, isSubject, -⟩ := taken
  obtain ⟨screenedToo, isSubjectToo, -⟩ := also
  cases isSubject.symm.trans isSubjectToo
  exact ⟨rfl, rfl⟩

/-- One step after the other, each of them `allowed` in the state it starts from. -/
inductive Run (env : Env) (allowed : NodeContext → Node → Action → Prop) (start : Node) : Node → Prop where
  | start : Run env allowed start start
  | next {node next : Node} (earlier : Run env allowed start node) (ctx : NodeContext) (action : Action)
      (permitted : allowed ctx node action) (moved : node.step env ctx action = some next) : Run env allowed start next

/-- The actions one after the other, each of them only where the check lets it pass. -/
def follow (env : Env) (ctx : NodeContext) (check : Node → Action → Bool) (node : Node) : List Action → Option Node
  | [] => some node
  | action :: rest => if check node action then (node.step env ctx action).bind (follow env ctx check · rest) else none

lemma Run.follow {allowed : NodeContext → Node → Action → Prop} {check : Node → Action → Bool} {start last : Node}
    {actions : List Action} (sound : ∀ node action, check node action = true → allowed ctx node action)
    (run : Run env allowed start node) (followed : node.follow env ctx check actions = some last) :
    Run env allowed start last := by
  induction actions generalizing node with
  | nil =>
    cases followed
    exact run
  | cons action rest ih =>
    obtain ⟨passed, moved⟩ := ite_none_right_eq_some.mp followed
    obtain ⟨between, stepped, later⟩ := bind_eq_some_iff.mp moved
    exact ih (run.next ctx action (sound node action passed) stepped) later

variable (screening : Screening env before) (left : ∀ {s}, before s → after s)

include screening left

/-- A block that is dropped leaves nothing but a flag and lookups. -/
lemma processNewBlock_ends {peer : Int} {precomputed : Option Uint256} {outcome : BlockProcessResult × Node}
    (handled : ¬ (node.activeFork = none ∧
        drops env ctx node.chain (blockHash env ctx node.chain.toBlockTree block precomputed) block = true) →
      Handling env ctx bodies before after (blockHash env ctx node.chain.toBlockTree block precomputed) block)
    (holds : before node.chain) (sourced : Sourced bodies node)
    (result : node.processNewBlock env ctx peer block precomputed = some outcome) : Ends bodies after outcome.2 := by
  unfold processNewBlock at result
  generalize blockHash env ctx node.chain.toBlockTree block precomputed = hash at handled result
  have screened : Ends bodies before (Screening.nodeOf (screen env ctx node hash block)) := by
    refine screening.screen holds sourced ?_
    by_cases drop : node.activeFork = none ∧ drops env ctx node.chain hash block = true
    · exact .inl drop.1
    · exact .inr (handled drop).known
  dsimp only at result
  split at result
  next stopped rejected =>
    rw [rejected] at screened
    cases result
    exact ⟨left screened.1, screened.2⟩
  next isForkBlock passing passed =>
    rw [passed] at screened
    by_cases drop : node.activeFork = none ∧ drops env ctx node.chain hash block = true
    · obtain ⟨kind, isDuplicate⟩ := isSome_iff_exists.mp (Screening.duplicate_of_drops drop.1 drop.2 passed)
      rw [place, isDuplicate] at result
      cases result
      exact ⟨left screened.1, screened.2⟩
    · exact (handled drop).place screened.1 screened.2 result

/-- A step ends in `after` if what it takes in can be handled. -/
lemma step_ends {action : Action} (holds : before node.chain) (sourced : Sourced bodies node)
    (handled : ∀ hash block, node.TakesIn env ctx action hash block → Handling env ctx bodies before after hash block)
    (moved : node.step env ctx action = some next) : Ends bodies after next := by
  cases action with
  | deliver peer block precomputed =>
    obtain ⟨outcome, result, rfl⟩ := map_eq_some_iff.mp moved
    exact processNewBlock_ends screening left
      (fun notDropped => handled _ block ⟨true, rfl, fun drop => notDropped drop.2⟩) holds sourced result
  | resume index =>
    obtain ⟨task, chosen, performed⟩ := bind_eq_some_iff.mp moved
    have sourcedRest := sourced.withTasks (node.tasks.eraseIdx index)
    cases task with
    | resolve parentHash =>
      cases performed
      exact ⟨left holds, sourcedRest.withTasks _⟩
    | process orphanHash =>
      rw [perform] at performed
      split at performed
      · cases performed
        exact ⟨left holds, sourcedRest⟩
      next block found =>
        obtain ⟨outcome, result, rfl⟩ := map_eq_some_iff.mp performed
        refine processNewBlock_ends screening left ?_ ?_ (sourcedRest.eraseOrphan orphanHash) result
        · intro notDropped
          exact handled _ block ⟨true, by simp [subject, chosen, found], fun drop => notDropped drop.2⟩
        · exact holds
    | requeue orphanHash =>
      rw [perform] at performed
      split at performed
      · cases performed
        exact ⟨left holds, sourcedRest⟩
      next block found =>
        have taken : node.TakesIn env ctx (.resume index) (block.toCBlockHeader.getHash env.hashes) block :=
          ⟨false, by simp [subject, chosen, found], fun drop => by cases drop.1⟩
        refine (handled _ block taken).requeueOrphan ?_ sourcedRest rfl performed
        exact holds
  | work entry =>
    obtain ⟨queued, chosen, processed⟩ := bind_eq_some_iff.mp moved
    have atEntry := (filter_eq_some_iff.mp chosen).1
    have sourcedNext : Sourced bodies { node with queue := node.queue.eraseIdx entry } :=
      ⟨fun other member => sourced.queue other (List.mem_of_mem_eraseIdx member), sourced.fork, sourced.orphans⟩
    have taken : node.TakesIn env ctx (.work entry) queued.hash queued.block :=
      ⟨false, by simp [subject, atEntry], fun drop => by cases drop.1⟩
    refine (handled _ _ taken).processBlock ?_ sourcedNext processed
    exact holds
  | createForkCandidate forkPointHeight expectedTipHeight expectedHashes =>
    cases moved
    refine ⟨left holds, sourced.queue, fun fork isActive other body held => ?_, sourced.orphans⟩
    rcases createForkCandidate_cases isActive with before | empty
    · exact sourced.fork fork before other body held
    · obtain ⟨height, forkBlock, found, -⟩ := held
      rw [empty] at found
      cases found
  | cancelFork =>
    cases moved
    exact ⟨left holds, sourced.withoutFork⟩

end Node

end

end Dilithion
