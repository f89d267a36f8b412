import Dilithion.Chain.ChainState

/-! `ActivateBestChain` on the default path: extending the tip, replacing a VDF tip by a sibling with a
lower output, and reorganising to a chain with more work, with the rollback of a reorganisation that
fails half way. Each way out of the function is an `Exit`. -/

namespace Dilithion

open Lib CReorgWAL

namespace BlockTree

/-- The two walks of `FindFork`: the higher block goes up to the height of the other, then both go up
together until they meet. -/
def findFork (t : BlockTree) (first second : Uint256) : Option Uint256 :=
  let left := t.ancestry (some first)
  let right := t.ancestry (some second)
  match right with
  | [] => none
  | top :: _ =>
    match left.dropWhile fun entry => decide (top.2.nHeight < entry.2.nHeight) with
    | [] => none
    | level :: above =>
      let right := right.dropWhile fun entry => decide (level.2.nHeight < entry.2.nHeight)
      (((level :: above).zip right).find? fun pair => decide (pair.1.1 = pair.2.1)).map fun pair => pair.1.1

/-- The blocks from `start` up to, and without, `fork`, newest first; `none` if the walk misses it. -/
def pathFrom (t : BlockTree) (start fork : Uint256) : Option (List Uint256) :=
  let hashes := (t.ancestry (some start)).map Prod.fst
  if fork ∈ hashes then some (hashes.takeWhile fun hash => decide (hash ≠ fork)) else none

/-- The three tiers of checkpoint enforcement before a block is activated. -/
def checkpointsHold (t : BlockTree) (params : ChainParams) (hash : Uint256) (pindex : CBlockIndex) : Bool :=
  let highest := params.highestCheckpoint
  let tier1 := params.checkpointCheck pindex.nHeight hash
  let tier2 := highest.all fun cp =>
    !decide (cp.nHeight < pindex.nHeight) || decide (t.getAncestor hash cp.nHeight = some cp.hashBlock)
  let multiBlock := t.pindexTip.isNone || decide (pindex.pprev ≠ t.pindexTip)
  let tier3 := !multiBlock || params.checkpoints.all fun cp =>
    decide (pindex.nHeight ≤ cp.nHeight) || highest.any (fun top => decide (cp.nHeight = top.nHeight)) ||
      decide (t.getAncestor hash cp.nHeight = some cp.hashBlock)
  tier1 && tier2 && tier3

end BlockTree

inductive Exit where
  | noIndex
  | checkpointViolated
  | connected
  | connectFailed
  | noMoreWork
  | replaced
  | replaceDisconnectFailed
  | replaceConnectFailed
  | notBest
  | noFork
  | tooDeep
  | pastCheckpoint
  | forkInvalid
  | unreadable
  | walFailed
  | rolledBack
  | rollbackFailed
  | reorganized
  deriving DecidableEq, Repr

def Exit.returns : Exit → Bool
  | .connected | .replaced | .notBest | .forkInvalid | .reorganized => true
  | _ => false

def Exit.reorgOccurred : Exit → Bool
  | .replaced | .reorganized => true
  | _ => false

namespace CChainState

def maxReorgDepth : Int := 100

def setTip (s : CChainState) (hash : Uint256) : CChainState := { s with pindexTip := some hash }

def notifyTipUpdate (s : CChainState) (hash : Uint256) : CChainState :=
  { s with events := .tipUpdated hash :: s.events }

def anchorVdfGrace (env : Env) (now : Int) (s : CChainState) (pindex : CBlockIndex) : CChainState :=
  if 4 ≤ pindex.nVersion ∧ env.params.vdfLotteryActivationHeight ≤ pindex.nHeight then
    { s with vdfTipAcceptTime := now, vdfTipAcceptHeight := pindex.nHeight }
  else s

def lowerOutput (env : Env) (pindexNew pindexTip : CBlockIndex) : Bool :=
  decide (env.params.vdfLotteryActivationHeight ≤ pindexNew.nHeight) &&
    decide (pindexNew.nHeight = pindexTip.nHeight) &&
    decide (4 ≤ pindexNew.nVersion) && decide (4 ≤ pindexTip.nVersion) &&
    !pindexNew.header.vdfOutput.isNull && !pindexTip.header.vdfOutput.isNull &&
    hashLessThan pindexNew.header.vdfOutput pindexTip.header.vdfOutput

section Moves

variable (env : Env) (world : World) (now : Int)

variable (s : CChainState)

/-- `CheckVDFReplacementPreflight`, where there is a cooldown tracker. -/
def preflight : Bool × CChainState :=
  if env.hasCooldownTracker then s.ask world .forward .replacementPreflight else (true, s)

def shouldReplaceVDFTip (pindexNew pindexTip : CBlockIndex) : Bool × CChainState :=
  if lowerOutput env pindexNew pindexTip && decide (pindexNew.pprev = pindexTip.pprev) &&
      decide (s.vdfTipAcceptHeight = pindexTip.nHeight) &&
      decide (now - s.vdfTipAcceptTime ≤ env.params.vdfLotteryGracePeriod) then s.preflight env world
  else (false, s)

/-- The tiebreak between equal-work forks; without a recorded time the grace period counts as open. -/
def vdfTiebreak (pindexNew pindexTip : CBlockIndex) : Bool × CChainState :=
  if lowerOutput env pindexNew pindexTip && (decide (s.vdfTipAcceptHeight ≠ pindexTip.nHeight) ||
        decide (now - s.vdfTipAcceptTime ≤ env.params.vdfLotteryGracePeriod)) then s.preflight env world
  else (false, s)

def readable (s : CChainState) : List Uint256 → Bool × CChainState
  | [] => (true, s)
  | hash :: rest =>
    match s.readBlock world .forward hash with
    | (none, s) => (false, s)
    | (some _, s) => s.readable rest

def reconnectAll (s : CChainState) : List Uint256 → Bool × CChainState
  | [] => (true, s)
  | hash :: rest =>
    match s.readBlock world .rollback hash with
    | (none, s) => (false, s)
    | (some block, s) =>
      match s.connectTip env world .rollback hash block true with
      | (false, s) => (false, s)
      | (true, s) => s.reconnectAll rest

def disconnectAgain (s : CChainState) : List Uint256 → Bool × CChainState
  | [] => (true, s)
  | hash :: rest =>
    match s.disconnectTip env world .rollback hash with
    | (false, s) => (false, s)
    | (true, s) => s.disconnectAgain rest

/-- Disconnects the new blocks, reconnects the old ones and drops the log, whatever came of it. -/
def rollBack (connected disconnected : List Uint256) : Exit × CChainState :=
  match s.disconnectAgain env world connected with
  | (false, s) => (.rollbackFailed, s.walEnd world .rollback abortReorg)
  | (true, s) =>
    match s.reconnectAll env world disconnected with
    | (false, s) => (.rollbackFailed, s.walEnd world .rollback abortReorg)
    | (true, s) => (.rolledBack, s.walEnd world .rollback abortReorg)

def failRemaining (remaining : List Uint256) : CChainState :=
  { s with
    mapBlockIndex := remaining.foldl (fun index hash => index.modify hash fun pindex =>
      if pindex.isInvalid then pindex else pindex.raise CBlockIndex.blockFailedChild) s.mapBlockIndex }

/-- Both lists run from the newest block to the oldest; `done` has been disconnected. -/
def disconnectLoop (s : CChainState) : List Uint256 → List Uint256 → Except (Exit × CChainState) CChainState
  | _, [] => .ok s
  | done, hash :: rest =>
    match s.disconnectTip env world .forward hash with
    | (false, s) => .error (s.rollBack env world [] done)
    | (true, s) =>
      let count := UInt32.ofNat (done.length + 1)
      let s := (s.walCall world .forward fun wal write => wal.updateDisconnectProgress count write).2
      s.disconnectLoop (hash :: done) rest

/-- `done` has been connected, newest first; `disconnected` is what to put back if the next one fails. -/
def connectLoop (s : CChainState) (pindexNew : Uint256) (block : CBlock) (disconnected : List Uint256) :
    List Uint256 → List Uint256 → Except (Exit × CChainState) CChainState
  | _, [] => .ok s
  | done, hash :: rest =>
    match if hash = pindexNew then (some block, s) else s.readBlock world .forward hash with
    | (none, s) => .error (s.rollBack env world done disconnected)
    | (some connectBlock, s) =>
      match s.connectTip env world .forward hash connectBlock true with
      | (false, s) => .error ((s.failRemaining rest).rollBack env world done disconnected)
      | (true, s) =>
        let count := UInt32.ofNat (done.length + 1)
        let s := (s.walCall world .forward fun wal write => wal.updateConnectProgress count write).2
        s.connectLoop pindexNew block disconnected (hash :: done) rest

variable (pindexNew : Uint256) (block : CBlock)

def switchChains (disconnectBlocks connectBlocks : List Uint256) : Exit × CChainState :=
  let s := (s.walCall world .forward enterDisconnectPhase).2
  match s.disconnectLoop env world [] disconnectBlocks with
  | .error failed => failed
  | .ok s =>
    let s := (s.walCall world .forward enterConnectPhase).2
    match s.connectLoop env world pindexNew block disconnectBlocks.reverse [] connectBlocks with
    | .error failed => failed
    | .ok s =>
      let s := (s.setTip pindexNew).writeBestBlock world .forward pindexNew
      (.reorganized, (s.walEnd world .forward completeReorg).notifyTipUpdate pindexNew)

def reorganize (tip pindexNew : Uint256) (pindexTip : CBlockIndex) (block : CBlock) : Exit × CChainState :=
  match s.findFork tip pindexNew with
  | none => (.noFork, s)
  | some fork =>
    match s.getBlockIndex fork, s.pathFrom tip fork, s.pathFrom pindexNew fork with
    | some pindexFork, some disconnectBlocks, some connectReversed =>
      let connectBlocks := connectReversed.reverse
      let depth := pindexTip.nHeight - pindexFork.nHeight
      if depth < 0 ∨ maxReorgDepth < depth then (.tooDeep, s)
      else if (env.params.getLastCheckpoint pindexTip.nHeight).any fun cp =>
        decide (pindexFork.nHeight < cp.nHeight) then
        (.pastCheckpoint, s)
      else if connectBlocks.any fun hash => (s.getBlockIndex hash).any CBlockIndex.isInvalid then (.forkInvalid, s)
      else
        let checked := s.readable world (disconnectBlocks ++ connectBlocks.filter fun hash => decide (hash ≠ pindexNew))
        if !checked.1 then (.unreadable, checked.2)
        else
          let begun := checked.2.walCall world .forward fun wal write =>
            wal.beginReorg fork tip pindexNew disconnectBlocks connectBlocks write
          if !begun.1 then (.walFailed, begun.2)
          else begun.2.switchChains env world pindexNew block disconnectBlocks connectBlocks
    | _, _, _ => (.noFork, s)

def connectFirst : Exit × CChainState :=
  match s.connectTip env world .forward pindexNew block false with
  | (false, s) => (.connectFailed, s)
  | (true, s) => (.connected, (s.setTip pindexNew).writeBestBlock world .forward pindexNew)

def extendTip (entry pindexTip : CBlockIndex) (block : CBlock) : Exit × CChainState :=
  if !chainWorkGreaterThan entry.nChainWork pindexTip.nChainWork then (.noMoreWork, s)
  else match s.connectTip env world .forward pindexNew block false with
    | (false, s) => (.connectFailed, s)
    | (true, s) =>
      let s := ((s.setTip pindexNew).anchorVdfGrace env now entry).writeBestBlock world .forward pindexNew
      (.connected, s.notifyTipUpdate pindexNew)

def replaceTip (tip pindexNew : Uint256) (block : CBlock) : Exit × CChainState :=
  match s.disconnectTip env world .forward tip with
  | (false, s) => (.replaceDisconnectFailed, s)
  | (true, s) =>
    match s.connectTip env world .forward pindexNew block false with
    | (false, s) => (.replaceConnectFailed, s.flagChainRebuild)
    | (true, s) =>
      (.replaced, ((s.setTip pindexNew).writeBestBlock world .forward pindexNew).notifyTipUpdate pindexNew)

def compete (tip pindexNew : Uint256) (entry pindexTip : CBlockIndex) (block : CBlock) : Exit × CChainState :=
  if chainWorkGreaterThan entry.nChainWork pindexTip.nChainWork then
    s.reorganize env world tip pindexNew pindexTip block
  else
    let tiebreak := s.vdfTiebreak env world now entry pindexTip
    if tiebreak.1 then tiebreak.2.reorganize env world tip pindexNew pindexTip block else (.notBest, tiebreak.2)

def activateBestChain : Exit × CChainState :=
  match s.getBlockIndex pindexNew with
  | none => (.noIndex, s)
  | some entry =>
    if !s.checkpointsHold env.params pindexNew entry then (.checkpointViolated, s)
    else match s.pindexTip with
      | none => s.connectFirst env world pindexNew block
      | some tip =>
        match s.getBlockIndex tip with
        | none => (.noIndex, s)
        | some pindexTip =>
          if entry.pprev = some tip then s.extendTip env world now pindexNew entry pindexTip block
          else
            let replace := s.shouldReplaceVDFTip env world now entry pindexTip
            if replace.1 then replace.2.replaceTip env world tip pindexNew block
            else replace.2.compete env world now tip pindexNew entry pindexTip block

end Moves

end CChainState

/-! `ActivateBestChain` behind the new chain selector: the heaviest candidate is taken, its ancestry is
compared with the checkpoints, and one step moves the tip to it block by block. A block that fails to
connect is marked failed and the next candidate is tried, unless blocks had already been disconnected.
The clock is read once per use, like the world. -/

namespace BlockTree

variable (t : BlockTree)

/-- The walk from `start` towards the root that stops at `fork`; without a fork it takes everything. -/
def pathUntil (start fork : Option Uint256) : List Uint256 :=
  ((t.ancestry start).map Prod.fst).takeWhile fun hash => decide (some hash ≠ fork)

/-- `FindFork` of the tip and a block, if there is a tip. -/
def forkWithTip (hash : Uint256) : Option Uint256 := t.pindexTip.bind fun tip => t.findFork tip hash

/-- The first block, from `hash` down to the fork with the tip, that contradicts a checkpoint. -/
def violatingBlock (params : ChainParams) (hash : Uint256) : Option Uint256 :=
  (t.pathUntil (some hash) (t.forkWithTip hash)).find? fun ancestor =>
    (t.getBlockIndex ancestor).any fun pindex => !params.checkpointCheck pindex.nHeight ancestor

def pruneBlockIndexCandidates : BlockTree :=
  match t.pindexTip.bind t.getBlockIndex with
  | none => t
  | some pindexTip => { t with
      setBlockIndexCandidates := t.setBlockIndexCandidates.filter fun hash =>
        decide (t.pindexTip = some hash) ||
          !(t.getBlockIndex hash).any fun pindex => chainWorkGreaterThan pindexTip.nChainWork pindex.nChainWork }

def insertCandidate (hash : Uint256) (pindex : CBlockIndex) : BlockTree :=
  if pindex.isBlockACandidateForActivation then
    { t with setBlockIndexCandidates := OrderedSet.insert (precedes t.mapBlockIndex) hash t.setBlockIndexCandidates }
  else t

end BlockTree

inductive StepExit where
  | alreadyThere
  | tooDeep
  | unreadable
  | walFailed
  | disconnectFailed
  | bestBlockFailed
  | readFailed
  | connectFailed (disconnected : Bool)
  | switched
  deriving DecidableEq, Repr

def StepExit.returns : StepExit → Bool
  | .alreadyThere | .connectFailed false | .switched => true
  | _ => false

def StepExit.invalidFound : StepExit → Bool
  | .connectFailed _ => true
  | _ => false

namespace CChainState

def withTree (s : CChainState) (t : BlockTree) : CChainState := { s with toBlockTree := t }

def rewindTip (s : CChainState) (hash : Uint256) : CChainState :=
  { s with pindexTip := (s.getBlockIndex hash).bind CBlockIndex.pprev }

/-- `MaybeAnchorVdfGrace`: only the first arrival at a height starts the clock. -/
def maybeAnchorVdfGrace (env : Env) (clock : Nat → Int) (s : CChainState) (hash : Uint256) : CChainState :=
  match s.getBlockIndex hash with
  | none => s
  | some pindex =>
    if 4 ≤ pindex.nVersion ∧ env.params.vdfLotteryActivationHeight ≤ pindex.nHeight ∧
      pindex.nHeight ≠ s.vdfTipAcceptHeight then
      { s with vdfTipAcceptTime := clock s.asked, vdfTipAcceptHeight := pindex.nHeight }
    else s

section Step

variable (env : Env) (world : World) (clock : Nat → Int)

variable (s : CChainState)

def persistTip : Bool × CChainState :=
  match s.pindexTip with
  | none => (true, s)
  | some tip => (world .forward .writeBestBlock s.asked, s.writeBestBlock world .forward tip)

def giveUp : CChainState := (s.walEnd world .forward abortReorg).flagChainRebuild

/-- `count` blocks have been disconnected. -/
def stepDisconnect (s : CChainState) : Nat → List Uint256 → Except (StepExit × CChainState) CChainState
  | _, [] => .ok s
  | count, hash :: rest =>
    match s.disconnectTip env world .forward hash with
    | (false, s) => .error (.disconnectFailed, s.giveUp world)
    | (true, s) =>
      match (s.rewindTip hash).persistTip world with
      | (false, s) => .error (.bestBlockFailed, s.giveUp world)
      | (true, s) =>
        let s := (s.walCall world .forward fun wal write => wal.updateDisconnectProgress
          (UInt32.ofNat (count + 1)) write).2
        s.stepDisconnect (count + 1) rest

def stopStep (disconnected : Bool) : CChainState :=
  if disconnected then s.giveUp world else s.walEnd world .forward abortReorg

/-- The block in hand is used for the entry with its hash; the others are read. -/
def blockFor (block : CBlock) (hash : Uint256) : Option CBlock × CChainState :=
  if block.toCBlockHeader.getHash env.hashes = hash then (some block, s) else s.readBlock world .forward hash

def stepConnect (s : CChainState) (block : CBlock) (disconnected : Bool) :
    Nat → List Uint256 → Except (StepExit × CChainState) CChainState
  | _, [] => .ok s
  | count, hash :: rest =>
    match s.blockFor env world block hash with
    | (none, s) => .error (.readFailed, s.stopStep world disconnected)
    | (some connectBlock, s) =>
      match s.connectTip env world .forward hash connectBlock false with
      | (false, s) =>
        .error (.connectFailed disconnected,
          (s.withTree (s.toBlockTree.markBlockAsFailed hash)).stopStep world disconnected)
      | (true, s) =>
        match ((s.setTip hash).maybeAnchorVdfGrace env clock hash).persistTip world with
        | (false, s) => .error (.bestBlockFailed, s.giveUp world)
        | (true, s) =>
          let s := (s.walCall world .forward fun wal write => wal.updateConnectProgress
            (UInt32.ofNat (count + 1)) write).2
          (s.withTree s.toBlockTree.pruneBlockIndexCandidates).stepConnect block disconnected (count + 1) rest

def exceedsDepth (fork : Option Uint256) : Bool :=
  match s.pindexTip.bind s.getBlockIndex, fork.bind s.getBlockIndex with
  | some pindexTip, some pindexFork => decide (maxReorgDepth < pindexTip.nHeight - pindexFork.nHeight)
  | _, _ => false

def moveTip (block : CBlock) (disconnect connect : List Uint256) : StepExit × CChainState :=
  let s := (s.walCall world .forward enterDisconnectPhase).2
  match s.stepDisconnect env world 0 disconnect with
  | .error failed => failed
  | .ok s =>
    let s := (s.walCall world .forward enterConnectPhase).2
    match s.stepConnect env world clock block (!disconnect.isEmpty) 0 connect with
    | .error failed => failed
    | .ok s => (.switched, (s.persistTip world).2.walEnd world .forward completeReorg)

/-- `connect` is the path from the fork to the block. -/
def activateBestChainStep (pindexMostWork : Uint256) (block : CBlock) : StepExit × CChainState :=
  if s.pindexTip = some pindexMostWork then (.alreadyThere, s)
  else
    let fork := s.forkWithTip pindexMostWork
    if s.exceedsDepth fork then
      (.tooDeep, (s.withTree { s.toBlockTree with
        setBlockIndexCandidates := OrderedSet.erase
          (BlockTree.precedes s.mapBlockIndex) pindexMostWork s.setBlockIndexCandidates
        }).flagChainRebuild)
    else
      let disconnect := s.pathUntil s.pindexTip fork
      let connect := (s.pathUntil (some pindexMostWork) fork).reverse
      let unread := connect.filter fun hash => decide (block.toCBlockHeader.getHash env.hashes ≠ hash)
      match s.readable world (disconnect ++ unread) with
      | (false, s) => (.unreadable, s)
      | (true, s) =>
        match s.walCall world .forward fun wal write =>
          wal.beginReorg (fork.getD .null) (s.pindexTip.getD .null) pindexMostWork disconnect connect write with
        | (false, s) => (.walFailed, s)
        | (true, s) => s.moveTip env world clock block disconnect connect

end Step

/-- Why the loop leaves the tip where it is although there is a candidate. -/
def keepsTip (env : Env) (clock : Nat → Int) (s : CChainState) (entry : CBlockIndex) : Bool :=
  match s.pindexTip.bind s.getBlockIndex with
  | none => false
  | some pindexTip =>
    chainWorkGreaterThan pindexTip.nChainWork entry.nChainWork ||
    -- a sibling with a VDF output comes too late once the grace period is over
    (decide (entry.nHeight = pindexTip.nHeight) && decide (entry.pprev = pindexTip.pprev) &&
      !entry.header.vdfOutput.isNull && !pindexTip.header.vdfOutput.isNull &&
      !chainWorkGreaterThan entry.nChainWork pindexTip.nChainWork &&
      decide (s.vdfTipAcceptHeight = pindexTip.nHeight) &&
      decide (env.params.vdfLotteryGracePeriod < clock s.asked - s.vdfTipAcceptTime))

/-- One turn of the loop: it goes on with another candidate, or it ends and says whether the call returns
normally. -/
inductive Turn where
  | again (s : CChainState)
  | ended (returns : Bool) (s : CChainState)

def Turn.state : Turn → CChainState
  | .again s => s
  | .ended _ s => s

section Loop

variable (env : Env) (world : World) (clock : Nat → Int)

def activationTurn (s : CChainState) (block : CBlock) : Turn :=
  match s.findMostWorkChainImpl with
  | (none, t) => .ended true (s.withTree t)
  | (some pindexMostWork, t) =>
    let s := s.withTree t
    match s.getBlockIndex pindexMostWork with
    | none => .ended true s
    | some entry =>
      if s.pindexTip = some pindexMostWork then .ended true s
      else if s.keepsTip env clock entry then .ended true s
      else match s.violatingBlock env.params pindexMostWork with
        | some violating => .again (s.withTree (s.toBlockTree.markBlockAsFailed violating))
        | none =>
          let step := s.activateBestChainStep env world clock pindexMostWork block
          if !step.1.returns then .ended false step.2
          else if step.1.invalidFound then .again step.2
          else .ended true step.2

/-- `none` if the loop has not ended after `fuel` turns. -/
def activationLoop (block : CBlock) : Nat → CChainState → Option (Bool × CChainState)
  | 0, _ => none
  | fuel + 1, s =>
    match s.activationTurn env world clock block with
    | .ended returns s => some (returns, s)
    | .again s => activationLoop block fuel s

/-- `NotifyTipUpdate`, if there is a tip. -/
def announceTip (s : CChainState) : CChainState :=
  match s.pindexTip with
  | none => s
  | some tip => s.notifyTipUpdate tip

structure Activated where
  returns : Bool
  reorgOccurred : Bool
  state : CChainState

/-- `ActivateBestChain` with `DILITHION_USE_NEW_CHAIN_SELECTOR=1`, with at most `fuel` turns of the loop. -/
def activateBestChainNew (fuel : Nat) (s : CChainState) (pindexNew : Uint256) (block : CBlock) : Option Activated :=
  match s.getBlockIndex pindexNew with
  | none => some ⟨false, false, s⟩
  | some entry =>
    if !s.checkpointsHold env.params pindexNew entry then some ⟨false, false, s⟩
    else (activationLoop env world clock block fuel (s.withTree (s.toBlockTree.insertCandidate pindexNew entry))).map
        fun ended =>
      if ended.1 then ⟨true, decide (ended.2.pindexTip ≠ s.pindexTip), ended.2.announceTip⟩ else ⟨false, false, ended.2⟩

end Loop

end CChainState

end Dilithion

namespace Dilithion.CChainState

def tipAbove (s : CChainState) (targetHeight : Int) : Option Uint256 :=
  s.pindexTip.filter fun tip => (s.getBlockIndex tip).any fun pindex => decide (targetHeight < pindex.nHeight)

section

variable (env : Env) (world : World)

/-- At most `limit` blocks are disconnected; `total` counts them from the start of the call. An error is a
block that could not be disconnected, after which the log is dropped. -/
def rewindBlocks (targetHeight : Int) : Nat → Nat → CChainState → Except CChainState (Nat × CChainState)
  | 0, total, s => .ok (total, s)
  | limit + 1, total, s =>
    match s.tipAbove targetHeight with
    | none => .ok (total, s)
    | some tip =>
      match s.disconnectTip env world .forward tip with
      | (false, s) => .error (s.walEnd world .forward CReorgWAL.abortReorg)
      | (true, s) => rewindBlocks targetHeight limit (total + 1) (s.rewindTip tip)

variable (s : CChainState)

def batchLimit (batchSize : Int) : Nat :=
  if batchSize = 0 then s.mapBlockIndex.keys.length else batchSize.toNat

def rewindBatch (targetHeight batchSize : Int) (total : Nat) (s : CChainState) :
    Except CChainState (Nat × CChainState) :=
  match rewindBlocks env world targetHeight (s.batchLimit batchSize) total s with
  | .error s => .error s
  | .ok (total, s) =>
    let s := (s.persistTip world).2
    .ok (total, (s.walCall world .forward fun wal write => wal.updateDisconnectProgress (UInt32.ofNat total) write).2)

/-- `none` if the loop has not ended after `fuel` batches. -/
def rewindLoop (targetHeight batchSize : Int) : Nat → Nat → CChainState → Option (Int × CChainState)
  | 0, _, _ => none
  | fuel + 1, total, s =>
    match s.tipAbove targetHeight with
    | none => some (total, (s.persistTip world).2.walEnd world .forward CReorgWAL.completeReorg)
    | some _ =>
      match rewindBatch env world targetHeight batchSize total s with
      | .error s => some (-1, s)
      | .ok (total, s) => rewindLoop targetHeight batchSize fuel total s

/-- The blocks to go, newest first, and the block they stand on are recorded in the log. -/
def recordRewind (targetHeight : Int) : CChainState :=
  let isAbove (entry : Uint256 × CBlockIndex) : Bool := decide (targetHeight < entry.2.nHeight)
  let walk := s.ancestry s.pindexTip
  let forkPointHash := ((walk.dropWhile isAbove).head?.map Prod.fst).getD .null
  let s := (s.walCall world .forward fun wal write =>
    wal.beginReorg forkPointHash (s.pindexTip.getD .null) .null ((walk.takeWhile isAbove).map Prod.fst) [] write).2
  (s.walCall world .forward CReorgWAL.enterDisconnectPhase).2

def disconnectToHeight (fuel : Nat) (s : CChainState) (targetHeight batchSize : Int) : Option (Int × CChainState) :=
  match s.pindexTip.bind s.getBlockIndex with
  | none => some (-1, s)
  | some pindexTip =>
    if targetHeight < 0 then some (-1, s)
    else if pindexTip.nHeight ≤ targetHeight then some (0, s)
    else if (env.params.getLastCheckpoint pindexTip.nHeight).any fun cp =>
      decide (targetHeight < cp.nHeight) then some (-1, s)
    else rewindLoop env world targetHeight batchSize fuel 0 (s.recordRewind world targetHeight)

end

end Dilithion.CChainState
