import Dilithion.Consensus.TxValidation
import Dilithion.Chain.FailedReorg

/-! The pool of blocks that wait for their parent, as `COrphanManager` keeps it. Which block is evicted
when the pool is full depends on ages and is left to the caller. -/

namespace Dilithion

open List

structure COrphanBlock where
  hash : Uint256
  block : CBlock
  nodeId : Int
  nBlockSize : Nat
  deriving DecidableEq

namespace COrphanManager

def maxOrphanBlocks : Nat := 512

def maxOrphanBytes : Nat := 100 * 1024 * 1024

def maxOrphansPerPeer : Nat := 256

def getBlockSize (block : CBlock) : Nat := 80 + block.vtx.length + 100

variable (H : HashFunctions) (select : List COrphanBlock → Uint256) (pool : List COrphanBlock)

-- The pool is listed from the oldest orphan to the newest.
def nOrphanBytes : Nat := (pool.map COrphanBlock.nBlockSize).sum

def getOrphanBlock (hash : Uint256) : Option CBlock :=
  (pool.find? fun orphan => decide (orphan.hash = hash)).map COrphanBlock.block

def eraseOrphanBlock (hash : Uint256) : List COrphanBlock :=
  pool.filter fun orphan => decide (orphan.hash ≠ hash)

def getOrphanChildren (parentHash : Uint256) : List Uint256 :=
  (pool.filter fun orphan => decide (orphan.block.hashPrevBlock = parentHash)).map COrphanBlock.hash

def peerExceedsOrphanLimit (peer : Int) : Bool :=
  decide (maxOrphansPerPeer ≤ (pool.filter fun orphan => decide (orphan.nodeId = peer)).length)

-- Each round evicts one orphan, so there are at most as many rounds as orphans.
def limitOrphans (select : List COrphanBlock → Uint256) : Nat → List COrphanBlock → List COrphanBlock
  | 0, pool => pool
  | rounds + 1, pool =>
    if pool.length ≤ maxOrphanBlocks ∧ nOrphanBytes pool ≤ maxOrphanBytes then pool
    else if (select pool).isNull then pool
    else limitOrphans select rounds (eraseOrphanBlock pool (select pool))

def makeRoom (blockSize : Nat) : List COrphanBlock :=
  if maxOrphanBytes < nOrphanBytes pool + blockSize then limitOrphans select pool.length pool else pool

def addOrphanBlock (peer : Int) (block : CBlock) : Bool × List COrphanBlock :=
  let hash := block.toCBlockHeader.getHash H
  let blockSize := getBlockSize block
  if (getOrphanBlock pool hash).isSome then (true, pool)
  else if peerExceedsOrphanLimit pool peer then (false, pool)
  else
    let room := makeRoom select pool blockSize
    if maxOrphanBytes < nOrphanBytes room + blockSize then (false, room)
    else
      let added := room ++ [⟨hash, block, peer, blockSize⟩]
      (true, limitOrphans select added.length added)

variable {H select pool} {orphan : COrphanBlock}

lemma mem_of_getOrphanBlock {hash : Uint256} {block : CBlock} (found : getOrphanBlock pool hash = some block) :
    ∃ orphan ∈ pool, orphan.hash = hash ∧ orphan.block = block := by
  obtain ⟨orphan, at_, rfl⟩ := Option.map_eq_some_iff.mp found
  exact ⟨orphan, mem_of_find?_eq_some at_, by simpa using find?_some at_, rfl⟩

lemma mem_of_mem_eraseOrphanBlock {hash : Uint256} (member : orphan ∈ eraseOrphanBlock pool hash) : orphan ∈ pool :=
  (mem_filter.mp member).1

lemma mem_of_mem_limitOrphans {rounds : Nat} (member : orphan ∈ limitOrphans select rounds pool) : orphan ∈ pool := by
  induction rounds generalizing pool with
  | zero => exact member
  | succ rounds ih =>
    rw [limitOrphans] at member
    split at member
    · exact member
    · split at member
      · exact member
      · exact mem_of_mem_eraseOrphanBlock (ih member)

lemma mem_of_mem_makeRoom {blockSize : Nat} (member : orphan ∈ makeRoom select pool blockSize) : orphan ∈ pool := by
  unfold makeRoom at member
  split at member
  · exact mem_of_mem_limitOrphans member
  · exact member

/-- Only the new block enters the pool, under the hash of its header. -/
lemma mem_of_mem_addOrphanBlock {peer : Int} {block : CBlock}
    (member : orphan ∈ (addOrphanBlock H select pool peer block).2) :
    orphan ∈ pool ∨ orphan.block = block ∧ orphan.hash = block.toCBlockHeader.getHash H := by
  unfold addOrphanBlock at member
  dsimp only at member
  split at member
  · exact .inl member
  · split at member
    · exact .inl member
    · split at member
      · exact .inl (mem_of_mem_makeRoom member)
      · rcases mem_append.mp (mem_of_mem_limitOrphans member) with old | new
        · exact .inl (mem_of_mem_makeRoom old)
        · cases mem_singleton.mp new
          exact .inr ⟨rfl, rfl⟩

end COrphanManager

open Lib

structure CHeadersManager where
  /-- Negative for an unknown header. -/
  getHeightForHash : Uint256 → Int
  /-- Null if there is no header at the height. -/
  getRandomXHashAtHeight : Int → Uint256
  getBestHeight : Int

/-- What the surroundings answer during one call. The proof of work, the miner identities, the clock and
the disk are not modelled: they answer anything. -/
structure NodeContext where
  world : World
  now : Int
  validation : ValidationContext
  headersManager : Option CHeadersManager
  /-- The coinbase names a banned miner and the node is synced. -/
  isBanned : CBlock → Bool
  checkProofOfWork : Uint256 → UInt32 → Bool
  checkProofOfWorkDFMP : CBlock → Uint256 → Int → Bool
  /-- The difficulty that follows the block with this hash. -/
  getNextWorkRequired : Uint256 → UInt32 → UInt32
  checkBlockTimestamp : CBlock → Uint256 → Int → Bool
  validateMIK : CBlock → Int → Bool
  writeBlock : Uint256 → CBlock → Bool
  writeBlockIndex : Uint256 → Bool
  validationQueueRunning : Bool
  selectOrphanForEviction : List COrphanBlock → Uint256
  /-- Where the next index entry is allocated. -/
  address : Nat

inductive ForkBlockStatus where
  | pending
  | powValid
  | prevalidated
  | invalid
  deriving DecidableEq, Repr

structure ForkBlock where
  block : CBlock
  hash : Uint256
  height : Int
  status : ForkBlockStatus
  deriving DecidableEq

structure ForkCandidate where
  forkPointHeight : Int
  expectedTipHeight : Int
  expectedHashes : Table Int Uint256
  /-- By height. -/
  blocks : Table Int ForkBlock
  hashMismatchCount : Nat

namespace ForkCandidate

def maxHashMismatches : Nat := 10

variable (fork : ForkCandidate) (height : Int)

def inRange : Bool :=
  decide (fork.forkPointHeight < height) && decide (height ≤ fork.expectedTipHeight)

def isExpectedBlock (hash : Uint256) (height : Int) : Bool :=
  fork.inRange height && (fork.expectedHashes.lookup height).all fun expected => decide (expected = hash)

def addBlock (block : CBlock) (hash : Uint256) (height : Int) : ForkCandidate :=
  if !fork.inRange height || (fork.blocks.lookup height).isSome then fork
  else { fork with blocks := fork.blocks.insert height ⟨block, hash, height, .pending⟩ }

def getBlockAtHeight : Option ForkBlock := fork.blocks.lookup height

def allReceivedBlocksPrevalidated : Bool :=
  !fork.blocks.entries.isEmpty && fork.blocks.entries.all fun entry => entry.2.status == .prevalidated

def getHighestPrevalidatedHeight : Int :=
  fork.blocks.entries.foldl (fun highest entry =>
    if entry.2.status = .prevalidated ∧ highest < entry.1 then entry.1 else highest) (-1)

def markPrevalidated : ForkCandidate :=
  { fork with blocks := fork.blocks.modify height fun forkBlock => { forkBlock with status := .prevalidated } }

/-- `UpdateExpectedHash` replaces a hash, it does not add one. -/
def updateExpectedHash (newHash : Uint256) : ForkCandidate :=
  { fork with expectedHashes := fork.expectedHashes.modify height fun _ => newHash }

def recordHashMismatch : ForkCandidate :=
  { fork with hashMismatchCount := fork.hashMismatchCount + 1 }

def hasExcessiveHashMismatches : Bool := decide (maxHashMismatches ≤ fork.hashMismatchCount)

end ForkCandidate

namespace ForkManager

def createForkCandidate (active : Option ForkCandidate) (forkPointHeight expectedTipHeight : Int)
    (expectedHashes : Table Int Uint256) : Option ForkCandidate :=
  match active with
  | some fork => some fork
  | none =>
    if forkPointHeight < 0 ∨ expectedTipHeight ≤ forkPointHeight then none
    else some ⟨forkPointHeight, expectedTipHeight, expectedHashes, ∅, 0⟩

variable (env : Env) (ctx : NodeContext) (block : CBlock)

def validateBlockStructure : Bool :=
  !block.vtx.isEmpty && !block.hashPrevBlock.isNull && decide ((block.nTime.toNat : Int) ≤ ctx.now + 7200)

def validatePoW (hash : Uint256) : Bool :=
  block.toCBlockHeader.isVDFBlock || ctx.checkProofOfWork hash block.nBits

variable (t : BlockTree) (fork : ForkCandidate) (height : Int)

/-- The block of the active chain below the height, if the chain reaches that far. -/
def parentOnOurChain : Option Uint256 :=
  t.pindexTip.bind fun tip => (t.getBlockIndex tip).bind fun pindexTip =>
    if height ≤ pindexTip.nHeight then t.getAncestor tip (height - 1)
    else if pindexTip.nHeight = height - 1 then some tip else none

def validateBits (forkBlock : ForkBlock) : Bool :=
  if env.params.getHighestCheckpointHeight < forkBlock.height ∧
      (fork.forkPointHeight < 0 ∨ forkBlock.height ≤ fork.forkPointHeight + 1) then
    (parentOnOurChain t forkBlock.height).all fun parent =>
      decide (forkBlock.block.nBits = ctx.getNextWorkRequired parent forkBlock.block.nTime)
  else true

def preValidateBlock (forkBlock : ForkBlock) : Bool :=
  validateBlockStructure ctx forkBlock.block && validatePoW ctx forkBlock.block forkBlock.hash &&
    validateBits env ctx t fork forkBlock && ctx.validateMIK forkBlock.block forkBlock.height

/-- How the staged fork takes a block: refused with the fork given up, or taken into account. -/
inductive Staging where
  | failed
  | staged (isForkBlock forkPreValidated : Bool)
  deriving DecidableEq, Repr

def stageExpected (hash : Uint256) (block : CBlock) (height : Int) : Staging × Option ForkCandidate :=
  let fork := fork.addBlock block hash height
  match fork.getBlockAtHeight height with
  | none => (.staged true false, some fork)
  | some forkBlock =>
    if forkBlock.status ≠ .pending then (.staged true false, some fork)
    else if preValidateBlock env ctx t fork forkBlock then (.staged true true, some (fork.markPrevalidated height))
    else (.failed, none)

def refreshExpectedHash : ForkCandidate :=
  match ctx.headersManager with
  | none => fork
  | some headers =>
    let currentExpected := headers.getRandomXHashAtHeight height
    if currentExpected.isNull then fork else fork.updateExpectedHash height currentExpected

/-- A block at a height of the fork with another hash: the expected hash is refreshed, and after too many
of them the fork is given up. -/
def countMismatch : Option ForkCandidate :=
  let fork := refreshExpectedHash ctx fork.recordHashMismatch height
  if fork.hasExcessiveHashMismatches then none else some fork

/-- The fork pre-validation of `ProcessNewBlock`. -/
def stage (active : Option ForkCandidate) (hash : Uint256) (block : CBlock)
    (height : Int) : Staging × Option ForkCandidate :=
  match active with
  | none => (.staged false false, none)
  | some fork =>
    if fork.isExpectedBlock hash height then stageExpected env ctx t fork hash block height
    else if fork.inRange height then (.staged false false, countMismatch ctx fork height)
    else (.staged false false, some fork)

end ForkManager

namespace ForkCandidate

def Holds (fork : ForkCandidate) (hash : Uint256) (block : CBlock) : Prop :=
  ∃ height forkBlock, fork.blocks.lookup height = some forkBlock ∧ forkBlock.hash = hash ∧ forkBlock.block = block

variable {fork : ForkCandidate} {hash other : Uint256} {block held : CBlock} {height : Int}

lemma holds_addBlock (holds : (fork.addBlock block hash height).Holds other held) :
    fork.Holds other held ∨ other = hash ∧ held = block := by
  unfold addBlock at holds
  split at holds
  · exact .inl holds
  · obtain ⟨at_, forkBlock, found, rfl, rfl⟩ := holds
    by_cases same : at_ = height
    · subst same
      rw [AList.lookup_insert] at found
      cases found
      exact .inr ⟨rfl, rfl⟩
    · rw [AList.lookup_insert_ne same] at found
      exact .inl ⟨at_, forkBlock, found, rfl, rfl⟩

lemma holds_markPrevalidated (holds : (fork.markPrevalidated height).Holds other held) : fork.Holds other held := by
  obtain ⟨at_, forkBlock, found, rfl, rfl⟩ := holds
  simp only [markPrevalidated, Table.lookup_modify] at found
  split at found
  · obtain ⟨old, was, rfl⟩ := Option.map_eq_some_iff.mp found
    exact ⟨at_, old, was, rfl, rfl⟩
  · exact ⟨at_, forkBlock, found, rfl, rfl⟩

end ForkCandidate

lemma ForkManager.blocks_refreshExpectedHash (ctx : NodeContext) (fork : ForkCandidate) (height : Int) :
    (refreshExpectedHash ctx fork height).blocks = fork.blocks := by
  unfold refreshExpectedHash
  split
  · rfl
  · dsimp only
    split <;> rfl

variable {active : Option ForkCandidate} {fork : ForkCandidate}

/-- The candidate is the one there was, or a new one without blocks. -/
lemma ForkManager.createForkCandidate_cases {forkPointHeight expectedTipHeight : Int}
    {expectedHashes : Table Int Uint256}
    (left : fork ∈ createForkCandidate active forkPointHeight expectedTipHeight expectedHashes) :
    fork ∈ active ∨ fork.blocks = ∅ := by
  unfold createForkCandidate at left
  split at left
  · exact .inl left
  · split at left
    · cases left
    · cases left
      exact .inr rfl

lemma ForkManager.holds_stage {env : Env} {ctx : NodeContext} {t : BlockTree}
    {hash other : Uint256} {block held : CBlock} {height : Int}
    (left : fork ∈ (stage env ctx t active hash block height).2) (holds : fork.Holds other held) :
    (∃ before ∈ active, before.Holds other held) ∨ other = hash ∧ held = block := by
  unfold stage at left
  split at left
  · cases left
  next before =>
    have old : fork.blocks = before.blocks → ∃ before' ∈ some before, before'.Holds other held := by
      intro same
      exact ⟨before, rfl, by simpa only [ForkCandidate.Holds, same] using holds⟩
    split at left
    · unfold stageExpected at left
      dsimp only at left
      have added : (before.addBlock block hash height).Holds other held →
          (∃ before' ∈ some before, before'.Holds other held) ∨ other = hash ∧ held = block :=
        fun holds => (ForkCandidate.holds_addBlock holds).imp_left fun earlier => ⟨before, rfl, earlier⟩
      split at left
      · cases left
        exact added holds
      · split at left
        · cases left
          exact added holds
        · split at left
          · cases left
            exact added (ForkCandidate.holds_markPrevalidated holds)
          · cases left
    · split at left
      · unfold countMismatch at left
        dsimp only at left
        split at left
        · cases left
        · cases left
          exact .inl (old (blocks_refreshExpectedHash ..))
      · cases left
        exact .inl (old rfl)

/-! When the node leaves its chain for a staged fork. Block processing and the chain selector compare the
work of the fork's highest pre-validated block with the work of the tip, and so does `ActivateBestChain`
afterwards; the first of the three compares the bytes in memory order. -/

open CChainState ForkManager

def BlockTree.getTip (t : BlockTree) : Option CBlockIndex := t.pindexTip.bind t.getBlockIndex

/-- The decision of `ProcessNewBlock`: `operator<` on the two chain works. -/
def ForkManager.forkHasMoreWork (t : BlockTree) (fork : ForkCandidate) : Bool :=
  let highestPrevalidated := fork.getHighestPrevalidatedHeight
  if 0 < highestPrevalidated then
    match fork.getBlockAtHeight highestPrevalidated with
    | none => false
    | some highestBlock =>
      match t.getBlockIndex highestBlock.hash, t.getTip with
      | some forkIndex, some currentTip => currentTip.nChainWork.less forkIndex.nChainWork
      | _, _ => false
  else false

def ChainSelectorAdapter.forkHasMoreWork (t : BlockTree) (fork : ForkCandidate) : Bool :=
  let highestPrevalidated := fork.getHighestPrevalidatedHeight
  if highestPrevalidated < 0 then false
  else
    match fork.getBlockAtHeight highestPrevalidated with
    | none => false
    | some highestBlock =>
      match t.getBlockIndex highestBlock.hash, t.getTip with
      | some forkIndex, some currentTip => chainWorkGreaterThan forkIndex.nChainWork currentTip.nChainWork
      | _, _ => false

def Exit.declines : Exit → Bool
  | .noMoreWork | .notBest => true
  | _ => false

namespace Uint256

def firstDifference (a b : Bytes) : Option (UInt8 × UInt8) := (a.zip b).find? fun pair => decide (pair.1 ≠ pair.2)

/-- The least and the most significant byte in which two numbers differ, if any, compare alike. -/
def EndsAgree (a b : Uint256) : Prop :=
  (firstDifference a.data b.data).map (fun pair => decide (pair.1 < pair.2)) =
    (firstDifference a.data.reverse b.data.reverse).map fun pair => decide (pair.1 < pair.2)

lemma memLess_eq {a b : Bytes} (size : a.length = b.length) :
    memLess a b = ((firstDifference a b).map fun pair => decide (pair.1 < pair.2)).getD false := by
  induction a generalizing b with
  | nil => simp [memLess, firstDifference]
  | cons x as ih =>
    cases b with
    | nil => cases size
    | cons y bs =>
      have rest := ih (by simpa using size)
      rw [firstDifference] at rest
      simp only [memLess, firstDifference, zip_cons_cons, find?_cons]
      by_cases same : x = y
      · subst same
        simp [rest]
      · simp only [ne_eq, same, not_false_eq_true, decide_true, Option.map_some, Option.getD_some]
        by_cases less : x < y
        · simp [less]
        · have greater : y < x := UInt8.lt_of_le_of_ne (UInt8.not_lt.mp less) (Ne.symm same)
          simp [less, greater]

lemma firstDifference_none_iff {a b : Bytes} (size : a.length = b.length) : firstDifference a b = none ↔ a = b := by
  induction a generalizing b with
  | nil => simp [firstDifference, length_eq_zero_iff.mp size.symm]
  | cons x as ih =>
    cases b with
    | nil => cases size
    | cons y bs =>
      have rest := ih (b := bs) (by simpa using size)
      rw [firstDifference] at rest
      simp only [firstDifference, zip_cons_cons, find?_cons]
      by_cases same : x = y
      · subst same
        simpa using rest
      · simp [same]

/-- The order in memory is the numeric one exactly if the two ends agree. -/
lemma less_iff_toNat_lt_iff (a b : Uint256) : (a.less b = true ↔ a.toNat < b.toNat) ↔ EndsAgree a b := by
  have bottom : (firstDifference a.data b.data) = none ↔ a.data = b.data := firstDifference_none_iff (by simp)
  have top : (firstDifference a.data.reverse b.data.reverse) = none ↔ a.data = b.data := by
    rw [firstDifference_none_iff (by simp), reverse_inj]
  rw [← hashLessThan_iff, hashLessThan, less, memLess_eq (by simp), memLess_eq (by simp), EndsAgree]
  cases low : firstDifference a.data b.data <;> cases high : firstDifference a.data.reverse b.data.reverse
  · simp
  · rw [top.mpr (bottom.mp low)] at high
    cases high
  · rw [bottom.mpr (top.mp high)] at low
    cases low
  · simp

end Uint256

namespace CChainState

variable {env : Env} {world : World} {now : Int} {s : CChainState} {pindexNew tip : Uint256} {block : CBlock}
  {entry pindexTip : CBlockIndex}

lemma rollBack_not_declines (s : CChainState) (connected disconnected : List Uint256) :
    (s.rollBack env world connected disconnected).1.declines = false := by
  unfold rollBack
  split
  · rfl
  · split <;> rfl

variable {failed : Exit × CChainState}

lemma disconnectLoop_not_declines {done rest : List Uint256}
    (stopped : s.disconnectLoop env world done rest = .error failed) : failed.1.declines = false := by
  induction rest generalizing s done with
  | nil => cases stopped
  | cons hash rest ih =>
    rw [disconnectLoop] at stopped
    split at stopped
    · cases stopped
      exact rollBack_not_declines _ _ _
    · exact ih stopped

lemma connectLoop_not_declines {disconnected done rest : List Uint256}
    (stopped : s.connectLoop env world pindexNew block disconnected done rest = .error failed) :
    failed.1.declines = false := by
  induction rest generalizing s done with
  | nil => cases stopped
  | cons hash rest ih =>
    rw [connectLoop] at stopped
    split at stopped
    · cases stopped
      exact rollBack_not_declines _ _ _
    · split at stopped
      · cases stopped
        exact rollBack_not_declines _ _ _
      · exact ih stopped

lemma reorganize_not_declines (s : CChainState) :
    (s.reorganize env world tip pindexNew pindexTip block).1.declines = false := by
  unfold reorganize switchChains
  dsimp only
  split
  · rfl
  split
  · repeat' split
    all_goals first
      | rfl
      | exact disconnectLoop_not_declines ‹_›
      | exact connectLoop_not_declines ‹_›
  · rfl

section

variable (found : s.getBlockIndex pindexNew = some entry) (atTip : s.pindexTip = some tip)
  (foundTip : s.getBlockIndex tip = some pindexTip)

include found atTip foundTip

/-- A block with more work is never turned down for want of work. -/
lemma not_declines_of_more_work (more : chainWorkGreaterThan entry.nChainWork pindexTip.nChainWork = true) :
    (s.activateBestChain env world now pindexNew block).1.declines = false := by
  simp only [activateBestChain, found, atTip, foundTip]
  split
  · rfl
  split
  · simp only [extendTip, more, Bool.not_true, Bool.false_eq_true, if_false]
    split <;> rfl
  split
  · unfold replaceTip
    split
    · rfl
    · split <;> rfl
  · rw [compete, if_pos more]
    exact reorganize_not_declines _

/-- A block without more work is turned down, unless the lower VDF output decides. -/
lemma declines_of_no_more_work (more : chainWorkGreaterThan entry.nChainWork pindexTip.nChainWork = false)
    (allowed : s.checkpointsHold env.params pindexNew entry = true) (noTie : lowerOutput env entry pindexTip = false) :
    (s.activateBestChain env world now pindexNew block).1.declines = true := by
  have noReplace : s.shouldReplaceVDFTip env world now entry pindexTip = (false, s) := by
    simp [shouldReplaceVDFTip, noTie]
  have noTiebreak : s.vdfTiebreak env world now entry pindexTip = (false, s) := by
    simp [vdfTiebreak, noTie]
  simp only [activateBestChain, found, atTip, foundTip, allowed, noReplace, Bool.not_true, Bool.false_eq_true, if_false]
  split
  · simp [extendTip, more, Exit.declines]
  · simp [compete, more, noTiebreak, Exit.declines]

end

end CChainState

/-- The decision of block processing follows the work as a number, and with it the decisions of the chain
selector and of `ActivateBestChain`, up to the tiebreak between VDF outputs. -/
structure FollowsWork (s : CChainState) (fork : ForkCandidate) (forkTip : Uint256)
    (forkIndex currentTip : CBlockIndex) : Prop where
  numeric : forkHasMoreWork s.toBlockTree fork = true ↔ currentTip.nChainWork.toNat < forkIndex.nChainWork.toNat
  selector : forkHasMoreWork s.toBlockTree fork = ChainSelectorAdapter.forkHasMoreWork s.toBlockTree fork
  activates : forkHasMoreWork s.toBlockTree fork = true → ∀ env world now block,
    (s.activateBestChain env world now forkTip block).1.declines = false
  declines : forkHasMoreWork s.toBlockTree fork = false → ∀ env world now block,
    s.checkpointsHold env.params forkTip forkIndex = true → lowerOutput env forkIndex currentTip = false →
    (s.activateBestChain env world now forkTip block).1.declines = true

/-- Whatever the two works are, the decision follows them exactly if their lowest and highest differing
bytes compare alike. -/
theorem forkHasMoreWork_follows_iff {s : CChainState} {fork : ForkCandidate} {highestBlock : ForkBlock} {tip : Uint256}
    {forkIndex currentTip : CBlockIndex} (prevalidated : 0 < fork.getHighestPrevalidatedHeight)
    (held : fork.getBlockAtHeight fork.getHighestPrevalidatedHeight = some highestBlock)
    (indexed : s.getBlockIndex highestBlock.hash = some forkIndex) (atTip : s.pindexTip = some tip)
    (foundTip : s.getBlockIndex tip = some currentTip) :
    FollowsWork s fork highestBlock.hash forkIndex currentTip ↔
    Uint256.EndsAgree currentTip.nChainWork forkIndex.nChainWork := by
  have legacy : forkHasMoreWork s.toBlockTree fork = currentTip.nChainWork.less forkIndex.nChainWork := by
    simp [forkHasMoreWork, BlockTree.getTip, prevalidated, held, indexed, atTip, foundTip]
  have selector : ChainSelectorAdapter.forkHasMoreWork s.toBlockTree fork =
      chainWorkGreaterThan forkIndex.nChainWork currentTip.nChainWork := by
    simp [ChainSelectorAdapter.forkHasMoreWork, BlockTree.getTip, not_lt.mpr prevalidated.le, held,
      indexed, atTip, foundTip]
  rw [← Uint256.less_iff_toNat_lt_iff, ← legacy]
  refine ⟨FollowsWork.numeric, fun numeric => ?_⟩
  have sameAnswer : forkHasMoreWork s.toBlockTree fork =
      chainWorkGreaterThan forkIndex.nChainWork currentTip.nChainWork := by
    rw [Bool.eq_iff_iff, numeric, chainWorkGreaterThan_iff]
  refine ⟨numeric, sameAnswer.trans selector.symm, fun more env world now block => ?_,
    fun less env world now block => ?_⟩
  · exact not_declines_of_more_work indexed atTip foundTip (sameAnswer ▸ more)
  · exact declines_of_no_more_work indexed atTip foundTip (sameAnswer ▸ less)

def stagedFork (hash : Uint256) : ForkCandidate where
  forkPointHeight := 0
  expectedTipHeight := 2
  expectedHashes := ∅
  blocks := AList.insert 2 ⟨forkBlock (some forkRivalParent) 3, hash, 2, .prevalidated⟩ ∅
  hashMismatchCount := 0

/-- With the works 2 and 3 the decision follows the work. -/
theorem forkHasMoreWork_follows_fork :
    FollowsWork CChainState.forkState (stagedFork CChainState.forkRival) CChainState.forkRival
      (CChainState.forkEntry (some CChainState.forkRivalParent) none 2 3 3
        (CBlockIndex.blockHaveData ||| CBlockIndex.blockValidTransactions))
      (CChainState.forkEntry (some CChainState.forkGenesis) none 1 2 1 CBlockIndex.blockConnected) := by
  have prevalidated : 0 < (stagedFork forkRival).getHighestPrevalidatedHeight := by decide
  have atTip : forkState.pindexTip = some forkTip := rfl
  refine (forkHasMoreWork_follows_iff prevalidated rfl (by decide) atTip (by rfl)).mpr ?_
  rfl

def carryState : CChainState :=
  { forkState with
    mapBlockIndex := (forkState.mapBlockIndex.modify forkTip fun pindex =>
      { pindex with nChainWork := .ofNat 255 }).modify forkRival fun pindex =>
        { pindex with nChainWork := .ofNat 256 } }

/-- The fork has more work, the chain selector sees it and block processing does not. -/
theorem forkHasMoreWork_misses_carry :
    (carryState.getBlockIndex CChainState.forkTip).map (fun pindex => pindex.nChainWork.toNat) = some 255 ∧
    (carryState.getBlockIndex CChainState.forkRival).map (fun pindex => pindex.nChainWork.toNat) = some 256 ∧
    carryState.pindexTip = some CChainState.forkTip ∧
    ForkManager.forkHasMoreWork carryState.toBlockTree (stagedFork CChainState.forkRival) = false ∧
    ChainSelectorAdapter.forkHasMoreWork carryState.toBlockTree (stagedFork CChainState.forkRival) = true := by
  decide

end Dilithion
