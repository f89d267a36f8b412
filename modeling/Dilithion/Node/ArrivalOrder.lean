import Dilithion.Node.BlockProcessing
import Dilithion.Chain.Seated

/-! Which bodies reach the chain. The orphan path checks the body of a block before the block may wait for its parent;
no other path does, and the body has been written by then. A body that was refused stays in the database, under a
hash that is not in the index. So a block is connected with a body that passes the checks if each hash comes with one
body and what arrives above an indexed parent passes. -/

namespace Dilithion

open Lib BlockProcessing CBlockValidator ChainEvent Option

def PassesBody (H : HashFunctions) (block : CBlock) : Prop :=
  ∃ transactions, deserializeBlockTransactions block = .ok transactions ∧
    verifyMerkleRoot H block transactions = .ok () ∧
    checkNoDuplicateTransactions H transactions = .ok () ∧
    checkNoDoubleSpends transactions = .ok ()

lemma passesBody_iff (H : HashFunctions) (block : CBlock) : PassesBody H block ↔ checkBody H block = .ok () := by
  unfold PassesBody checkBody
  simp [Decoder.bind_eq_ok_iff, Unique.exists_iff]

/-- Stored bodies are those of their hashes, and the body of an indexed hash passes. -/
structure CChainState.Clean (H : HashFunctions) (bodyOf : Uint256 → CBlock) (s : CChainState) : Prop where
  stored : ∀ hash block, s.blocks.lookup hash = some block → block = bodyOf hash
  indexed : ∀ hash, (s.getBlockIndex hash).isSome = true → PassesBody H (bodyOf hash)
  connected : ∀ hash height block, blockConnected hash height block ∈ s.events → PassesBody H block

namespace CChainState.Clean

variable {H : HashFunctions} {bodyOf : Uint256 → CBlock} {env : Env} {world : World} {s t : CChainState}

lemma of_subset (clean : s.Clean H bodyOf) (blocks : t.blocks = s.blocks)
    (index : ∀ hash, (t.getBlockIndex hash).isSome = (s.getBlockIndex hash).isSome)
    (events : ∀ hash height block, blockConnected hash height block ∈ t.events →
      blockConnected hash height block ∈ s.events) : t.Clean H bodyOf :=
  ⟨fun hash block found => clean.stored hash block (blocks ▸ found),
    fun hash known => clean.indexed hash ((index hash).symm.trans known),
    fun hash height block member => clean.connected hash height block (events hash height block member)⟩

lemma isSome_modifyIndex (s : CChainState) (key : Uint256) (change : CBlockIndex → CBlockIndex) (hash : Uint256) :
    ((s.modifyIndex key change).getBlockIndex hash).isSome = (s.getBlockIndex hash).isSome := by
  rw [BlockTree.getBlockIndex, BlockTree.getBlockIndex, modifyIndex, Table.lookup_modify]
  split <;> simp

lemma isSome_of_relabelled {spared : Uint256 → Prop}
    (relabelled : BlockTree.Relabelled spared s.mapBlockIndex t.mapBlockIndex) (hash : Uint256) :
    (t.getBlockIndex hash).isSome = (s.getBlockIndex hash).isSome := by
  have same := congrArg Option.isSome (relabelled hash).1
  simpa [BlockTree.getBlockIndex] using same

lemma preserved (H : HashFunctions) (bodyOf : Uint256 → CBlock) (env : Env) (world : World) :
    Preserved env world (CChainState.Clean H bodyOf) fun hash block => block = bodyOf hash where
  logged clean logged := by
    obtain ⟨asked, wal, rfl⟩ := logged
    exact clean.of_subset rfl (fun _ => rfl) fun _ _ _ old => old
  ended stage finish clean := by
    refine clean.of_subset (walEnd_blocks ..) (fun hash => ?_) fun _ _ _ old => by rwa [walEnd_events] at old
    rw [walEnd_tree]
  flagged clean := clean.of_subset rfl (fun _ => rfl) fun _ _ _ old => old
  stored clean found := clean.stored _ _ found
  connect clean isBody result := by
    obtain ⟨blocks, announced⟩ := connectTip_announces result
    refine ⟨fun hash block found => clean.stored hash block (blocks ▸ found), fun hash known => ?_,
      fun hash height block member => ?_⟩
    · exact clean.indexed hash ((isSome_of_relabelled (kept_connectTip result).relabelled hash).symm.trans known)
    · rcases announced hash height block member with old | ⟨-, rfl, rfl, pindex, found, -⟩
      · exact clean.connected hash height block old
      · exact isBody ▸ clean.indexed hash (by simp [BlockTree.getBlockIndex, found])
  disconnect clean result := by
    obtain ⟨blocks, announced⟩ := disconnectTip_announces result
    exact clean.of_subset blocks (isSome_of_relabelled (kept_disconnectTip result).relabelled) announced
  failChild clean := clean.of_subset rfl (isSome_modifyIndex _ _ _) fun _ _ _ old => old

lemma activateBestChain (clean : s.Clean H bodyOf) {pindexNew : Uint256} {block : CBlock}
    (isBody : block = bodyOf pindexNew)
    (now : Int) : (s.activateBestChain env world now pindexNew block).2.Clean H bodyOf := by
  rcases (preserved H bodyOf env world).activation isBody clean (activateBestChain_cases rfl) with
    ended | ⟨reached, before, tipped⟩
  · exact ended
  · have index := congrArg BlockTree.mapBlockIndex tipped.tree
    exact before.of_subset tipped.blocks
      (fun hash => congrArg (fun index => (index.lookup hash).isSome) index) tipped.connected

end CChainState.Clean

/-- A block that finds its parent or its own hash in the index passes. -/
def CChainState.Admissible (H : HashFunctions) (s : CChainState) (hash : Uint256) (block : CBlock) : Prop :=
  (s.getBlockIndex block.hashPrevBlock).isSome = true ∨ (s.getBlockIndex hash).isSome = true → PassesBody H block

namespace Node

/-- Waiting orphans and queued blocks pass. What is queued or staged is the body of its hash. -/
def checkedBodies (env : Env) (bodyOf : Uint256 → CBlock) : Bodies where
  good hash block := block = bodyOf hash
  queueable hash block := block = bodyOf hash ∧ PassesBody env.hashes block
  pooled := PassesBody env.hashes

structure Clean (env : Env) (bodyOf : Uint256 → CBlock) (node : Node) : Prop where
  chain : node.chain.Clean env.hashes bodyOf
  sourced : Sourced (checkedBodies env bodyOf) node

/-- Each hash is taken in with one body. What arrives passes if its parent, or its own hash, is indexed. -/
structure PassesOnArrival (env : Env) (bodyOf : Uint256 → CBlock) (ctx : NodeContext) (node : Node)
    (action : Action) : Prop where
  body : ∀ hash block, node.TakesIn env ctx action hash block → block = bodyOf hash
  arriving : ∀ peer block precomputed hash, action = .deliver peer block precomputed →
    node.TakesIn env ctx action hash block → node.chain.Admissible env.hashes hash block

variable {env : Env} {bodyOf : Uint256 → CBlock} {ctx : NodeContext} {node next start : Node} {action : Action}

section

variable (clean : node.Clean env bodyOf) (passes : node.PassesOnArrival env bodyOf ctx action)

include clean passes

/-- What was held back has been checked, so every block taken in is admissible. -/
lemma Clean.takesIn {hash : Uint256} {block : CBlock} (taken : node.TakesIn env ctx action hash block) :
    node.chain.Admissible env.hashes hash block := by
  obtain ⟨screened, isSubject, -⟩ := id taken
  cases action with
  | deliver peer delivered precomputed =>
    cases isSubject
    exact passes.arriving _ _ _ _ rfl taken
  | resume task =>
    obtain ⟨chosen, -, working⟩ := bind_eq_some_iff.mp isSubject
    cases chosen with
    | resolve parentHash => cases working
    | process orphanHash | requeue orphanHash =>
      obtain ⟨body, found, same⟩ := map_eq_some_iff.mp working
      cases same
      exact fun _ => clean.sourced.orphan found
  | work entry =>
    obtain ⟨queued, chosen, same⟩ := map_eq_some_iff.mp isSubject
    cases same
    exact fun _ => (clean.sourced.queue queued (List.mem_of_getElem? chosen)).2
  | createForkCandidate forkPointHeight expectedTipHeight expectedHashes => cases isSubject
  | cancelFork => cases isSubject

end

/-- Up to the activation the state is clean, and what is taken in is admissible. -/
def Checked (env : Env) (bodyOf : Uint256 → CBlock) (ctx : NodeContext) (node : Node) (action : Action)
    (s : CChainState) : Prop :=
  s.Clean env.hashes bodyOf ∧ ∀ hash block, node.TakesIn env ctx action hash block → s.Admissible env.hashes hash block

lemma Checked.of_subset {s t : CChainState} (checked : Checked env bodyOf ctx node action s)
    (blocks : t.blocks = s.blocks)
    (index : ∀ hash, (t.getBlockIndex hash).isSome = (s.getBlockIndex hash).isSome) (events : t.events = s.events) :
    Checked env bodyOf ctx node action t :=
  ⟨checked.1.of_subset blocks index fun _ _ _ old => events ▸ old,
    fun hash block taken known => checked.2 hash block taken (by rwa [index, index] at known)⟩

lemma checked_screening : Screening env (Checked env bodyOf ctx node action) where
  looked _ checked := checked.of_subset rfl (fun _ => rfl) rfl
  failed _ checked := checked.of_subset rfl (CChainState.Clean.isSome_modifyIndex _ _ _) rfl

lemma checked_handling {hash : Uint256} {block : CBlock} (passes : node.PassesOnArrival env bodyOf ctx action)
    (taken : node.TakesIn env ctx action hash block) :
    Handling env ctx (checkedBodies env bodyOf) (Checked env bodyOf ctx node action)
      (CChainState.Clean env.hashes bodyOf) hash block where
  known := passes.body hash block taken
  queues checked known := ⟨passes.body hash block taken, checked.2 hash block taken (.inr known)⟩
  pools := (passesBody_iff env.hashes block).mpr
  left checked := checked.1
  written {s} checked := by
    refine ⟨⟨fun other body found => ?_, checked.1.indexed, checked.1.connected⟩, checked.2⟩
    by_cases same : other = hash
    · subst same
      rw [AList.lookup_insert] at found
      exact (some.inj found).symm.trans (passes.body other block taken)
    · rw [AList.lookup_insert_ne same] at found
      exact checked.1.stored other body found
  indexed {s pParent tree} checked _ parent _ added := by
    -- the parent is indexed, so the block passes
    have fine : PassesBody env.hashes block := checked.2 hash block taken (.inl (by simp [parent]))
    obtain ⟨-, -, -, others⟩ := BlockTree.addBlockIndex_lookup added
    refine ⟨⟨checked.1.stored, fun other known => ?_, checked.1.connected⟩, fun other body also _ => ?_⟩
    · by_cases same : other = hash
      · rwa [same, ← passes.body hash block taken]
      · refine checked.1.indexed other ?_
        rwa [BlockTree.getBlockIndex, ← others other same]
    · obtain ⟨-, rfl⟩ := taken.unique also
      exact fine
  activated checked isBody _ := checked.1.activateBestChain isBody ctx.now

lemma Clean.step (clean : node.Clean env bodyOf) (passes : node.PassesOnArrival env bodyOf ctx action)
    (moved : node.step env ctx action = some next) : next.Clean env bodyOf := by
  obtain ⟨chain, sourced⟩ := step_ends checked_screening And.left
    (show Checked env bodyOf ctx node action node.chain from ⟨clean.chain, fun _ _ => clean.takesIn passes⟩)
      clean.sourced
    (fun hash block taken => checked_handling passes taken) moved
  exact ⟨chain, sourced⟩

/-- In every run in which each hash comes with one body and what arrives above an indexed parent passes the body
checks, every block that is connected passes them, on whichever way it got there. -/
theorem connected_passes_of_run (clean : start.Clean env bodyOf)
    (run : Run env (PassesOnArrival env bodyOf) start node) (hash : Uint256) (height : Int) (block : CBlock)
    (connected : ChainEvent.blockConnected hash height block ∈ node.chain.events) :
    PassesBody env.hashes block := by
  have always : node.Clean env bodyOf := by
    clear connected
    induction run with
    | start => exact clean
    | next earlier ctx action permitted moved ih => exact ih.step permitted moved
  exact always.chain.connected hash height block connected

end Node

def payToKeyHash (keyHash : Bytes) : Bytes := [0x76, 0xa9, 0x14] ++ keyHash ++ [0x88, 0xac]

def minerKeyHash : Bytes := List.replicate 20 7

def coinbaseTx (tag : UInt8) (vout : List CTxOut) : CTransaction :=
  ⟨1, [⟨⟨.null, 0xFFFFFFFF⟩, [1, tag], 0xFFFFFFFF⟩], vout, 0⟩

def genesisReward : CTransaction := coinbaseTx 0 [⟨5000000000, payToKeyHash minerKeyHash⟩]

def firstReward : CTransaction := coinbaseTx 1 [⟨4900000000, payToKeyHash minerKeyHash⟩,
  ⟨50000000, payToKeyHash Consensus.devFundPubkeyHash⟩, ⟨50000000, payToKeyHash Consensus.devRewardPubkeyHash⟩]

def minedBlock (hashPrevBlock hashMerkleRoot : Uint256) (nTime : UInt32) (transactions : List CTransaction) : CBlock :=
  { blockOf hashPrevBlock transactions with hashMerkleRoot := hashMerkleRoot, nTime := nTime, nBits := 0x1f7fffff }

def genesisRewardHash : Uint256 := .ofNat 0x2b76c5739699b336f6ece2cd2234847073f8b73fb0ecc0ba79baf9a14d24796c
def firstRewardHash : Uint256 := .ofNat 0x4580b593d9ae73512b2a6a5ede9f65ae1062b2b49937392b9296aa118dcc6b16
def genesisBlockHash : Uint256 := .ofNat 0x8d23455290555ded3dd6290233b608ef215383be14fa5c68d535d38ca0b2b5fc
def firstBlockHash : Uint256 := .ofNat 0x432f526296ebeb6a5ef0b6ce7e159cdc51305c3b07588e1d8c2f4365b094ccb2
def unrootedBlockHash : Uint256 := .ofNat 0xa078b2233b35642c45a9cadf972afc48147189173165f6013c7d0046c5d52768

def genesisBlock : CBlock := minedBlock .null genesisRewardHash 0 [genesisReward]

def firstBlock : CBlock := minedBlock genesisBlockHash firstRewardHash 1 [firstReward]

def unrootedBlock : CBlock := minedBlock genesisBlockHash .null 1 [firstReward]

def genesisTable : List (Bytes × Uint256) :=
  [(genesisReward.serialize, genesisRewardHash), (firstReward.serialize, firstRewardHash),
   (genesisBlock.toCBlockHeader.serializeHeader, genesisBlockHash),
   (firstBlock.toCBlockHeader.serializeHeader, firstBlockHash),
   (unrootedBlock.toCBlockHeader.serializeHeader, unrootedBlockHash),
   (undoPayload [], .ofNat 0xa29241d93a750b60ce816f60c61fbfd381d8f79699e527bef78b3cd885230a8b)]

def genesisEnv : Env where
  hashes := .ofTable genesisTable

def genesisIndexOf (genesis : CBlock) : CBlockIndex where
  header := genesis.toCBlockHeader
  pprev := none
  pnext := none
  nHeight := 0
  nChainWork := CBlockIndex.computeChainWork genesis.nBits
  nStatus := CBlockIndex.blockValidChain ||| CBlockIndex.blockHaveData
  nSequenceId := 0
  nVersion := 4
  address := 0

/-- A chain that knows its first block only. -/
def startState (env : Env) (genesis : CBlock) (hash : Uint256) : CChainState where
  mapBlockIndex := AList.singleton hash (genesisIndexOf genesis)
  pindexTip := some hash
  setBlockIndexCandidates := [hash]
  utxoSet := (emptySet.applyBlock env {} genesis 0 hash).2
  blocks := AList.singleton hash genesis
  bestBlock := some hash
  reorgWAL := none
  consecutiveUtxoFailures := 0
  utxoNeedsRebuild := false
  lastUndoFailureHash := .null
  consecutiveUndoFailures := 0
  chainNeedsRebuild := false
  vdfTipAcceptTime := 0
  vdfTipAcceptHeight := 0
  events := []
  asked := 0

def startNode (env : Env) (genesis : CBlock) (hash : Uint256) : Node := ⟨startState env genesis hash, [], none, [], []⟩

def genesisNode (env : Env) : Node := startNode env genesisBlock genesisBlockHash

/-- Every check that is not part of the model passes and every write is made. -/
def openContext : NodeContext where
  world := fun _ _ _ => true
  now := 0
  validation := ⟨0, none⟩
  headersManager := none
  isBanned := fun _ => false
  checkProofOfWork := fun _ _ => true
  checkProofOfWorkDFMP := fun _ _ _ => true
  getNextWorkRequired := fun _ _ => 0x1f7fffff
  checkBlockTimestamp := fun _ _ _ => true
  validateMIK := fun _ _ => true
  writeBlock := fun _ _ => true
  writeBlockIndex := fun _ => true
  validationQueueRunning := false
  selectOrphanForEviction := fun _ => .null
  address := 1

def secondReward : CTransaction := coinbaseTx 2 firstReward.vout

def rivalReward : CTransaction := coinbaseTx 3 firstReward.vout

def secondBlockHash : Uint256 := .ofNat 0x2222
def strayBlockHash : Uint256 := .ofNat 0x3333
def rivalBlockHash : Uint256 := .ofNat 0x4444

def secondBlock : CBlock := minedBlock firstBlockHash (.ofNat 0x222) 2 [secondReward]

def rivalBlock : CBlock := minedBlock genesisBlockHash (.ofNat 0x444) 1 [rivalReward]

/-- Its parent is not known, and its header does not commit to its transactions. -/
def strayBlock : CBlock := minedBlock (.ofNat 0x999) .null 3 [secondReward]

def orphanEnv : Env where
  hashes := .ofTable (genesisTable ++ [(secondReward.serialize, .ofNat 0x222),
    (secondBlock.toCBlockHeader.serializeHeader, secondBlockHash),
      (strayBlock.toCBlockHeader.serializeHeader, strayBlockHash),
    (rivalReward.serialize, .ofNat 0x444), (rivalBlock.toCBlockHeader.serializeHeader, rivalBlockHash)])

def orphanBodies (hash : Uint256) : CBlock :=
  if hash = genesisBlockHash then genesisBlock else if hash = firstBlockHash then firstBlock
  else if hash = secondBlockHash then secondBlock else if hash = rivalBlockHash then rivalBlock else strayBlock

def passesOnArrival (env : Env) (bodyOf : Uint256 → CBlock) (ctx : NodeContext) (node : Node) (action : Node.Action) :
    Bool :=
  (node.subject env ctx action).all fun (hash, block, _) => decide (block = bodyOf hash) &&
    ((node.chain.getBlockIndex block.hashPrevBlock).isNone && (node.chain.getBlockIndex hash).isNone ||
      decide (checkBody env.hashes block = .ok ()))

lemma passesOnArrival_sound {env : Env} {bodyOf : Uint256 → CBlock} {ctx : NodeContext}
    (node : Node) (action : Node.Action)
    (passes : passesOnArrival env bodyOf ctx node action = true) : Node.PassesOnArrival env bodyOf ctx node action := by
  have each {hash : Uint256} {block : CBlock} (taken : node.TakesIn env ctx action hash block) :
      block = bodyOf hash ∧ node.chain.Admissible env.hashes hash block := by
    obtain ⟨screened, isSubject, -⟩ := taken
    simp only [passesOnArrival, isSubject, all_some, Bool.and_eq_true, Bool.or_eq_true, decide_eq_true_eq] at passes
    refine ⟨passes.1, fun known => (passesBody_iff ..).mpr (passes.2.resolve_left fun unknown => ?_)⟩
    simp only [isNone_iff_eq_none] at unknown
    simp [unknown] at known
  exact ⟨fun _ _ taken => (each taken).1, fun _ _ _ _ _ taken => (each taken).2⟩

lemma genesisNode_clean : (genesisNode orphanEnv).Clean orphanEnv orphanBodies where
  chain :=
    { stored := fun hash block found => by
        cases List.mem_singleton.mp (AList.mem_lookup_iff.mp found)
        exact (if_pos rfl).symm
      indexed := fun hash known => by
        obtain ⟨pindex, found⟩ := isSome_iff_exists.mp known
        cases List.mem_singleton.mp (AList.mem_lookup_iff.mp found)
        exact (passesBody_iff ..).mpr (by decide +kernel)
      connected := fun _ _ _ member => nomatch member }
  sourced :=
    { queue := fun _ member => nomatch member
      fork := fun _ staged => nomatch staged
      orphans := fun _ member => nomatch member }

/-- The second block arrives first and waits, a stray one is refused with its body stored, and the first block brings
the second with it. -/
theorem orphan_is_connected_and_passes : ∃ node, (genesisNode orphanEnv).Clean orphanEnv orphanBodies ∧
    Node.Run orphanEnv (Node.PassesOnArrival orphanEnv orphanBodies) (genesisNode orphanEnv) node ∧
    node.chain.blocks.lookup strayBlockHash = some strayBlock ∧ ¬ PassesBody orphanEnv.hashes strayBlock ∧
    ChainEvent.blockConnected secondBlockHash 2 secondBlock ∈ node.chain.events ∧
    PassesBody orphanEnv.hashes secondBlock := by
  have ends : ((genesisNode orphanEnv).follow orphanEnv openContext (passesOnArrival orphanEnv orphanBodies openContext)
      [.deliver 0 secondBlock none, .deliver 0 strayBlock none, .deliver 0 firstBlock none, .resume 0, .resume 0]).any
          (fun node =>
        decide (node.chain.blocks.lookup strayBlockHash = some strayBlock ∧
          blockConnected secondBlockHash 2 secondBlock ∈ node.chain.events)) = true := by decide +kernel
  have refused : checkBody orphanEnv.hashes strayBlock ≠ .ok () := by decide +kernel
  obtain ⟨node, followed, holds⟩ := (any_eq_true _ _).mp ends
  obtain ⟨stored, connected⟩ := of_decide_eq_true holds
  have run := Node.Run.start.follow passesOnArrival_sound followed
  exact ⟨node, genesisNode_clean, run, stored, fun passes => refused ((passesBody_iff ..).mp passes), connected,
    Node.connected_passes_of_run genesisNode_clean run secondBlockHash 2 secondBlock connected⟩

/-- A block on a known parent is connected although its header does not commit to its transactions. -/
theorem unrooted_block_is_connected : ∃ node,
    (genesisNode genesisEnv).processNewBlock genesisEnv openContext 0 unrootedBlock none = some (.accepted, node) ∧
    ChainEvent.blockConnected unrootedBlockHash 1 unrootedBlock ∈ node.chain.events ∧
    node.chain.pindexTip = some unrootedBlockHash ∧ ¬ PassesBody genesisEnv.hashes unrootedBlock := by
  have accepted : ((genesisNode genesisEnv).processNewBlock genesisEnv openContext 0 unrootedBlock none).any
      (fun outcome =>
      decide (outcome.1 = .accepted ∧ blockConnected unrootedBlockHash 1 unrootedBlock ∈ outcome.2.chain.events ∧
        outcome.2.chain.pindexTip = some unrootedBlockHash)) = true := by decide +kernel
  have refused : checkBody genesisEnv.hashes unrootedBlock ≠ .ok () := by decide +kernel
  obtain ⟨⟨result, node⟩, outcome, holds⟩ := (any_eq_true _ _).mp accepted
  obtain ⟨rfl, connected, tip⟩ := of_decide_eq_true holds
  exact ⟨node, outcome, connected, tip, fun passes => refused ((passesBody_iff ..).mp passes)⟩

end Dilithion
