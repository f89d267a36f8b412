import Dilithion.Chain.BlockIndex
import Dilithion.Node.UtxoSet

/-! The write-ahead log of a chain reorganisation: one file that describes the reorganisation in
progress and is removed when it ends. A write either succeeds, fails before the file is opened, or
leaves a file that cannot be read back. -/

namespace Dilithion

inductive ReorgPhase where
  | initialized
  | disconnecting
  | connecting
  | completed
  deriving DecidableEq, Repr

structure WalRecord where
  phase : ReorgPhase
  forkPointHash : Uint256
  currentTipHash : Uint256
  targetTipHash : Uint256
  disconnectHashes : List Uint256
  connectHashes : List Uint256
  disconnectedCount : UInt32
  connectedCount : UInt32
  deriving DecidableEq

inductive WalFile where
  | record (contents : WalRecord)
  | unreadable
  deriving DecidableEq

structure CReorgWAL where
  active : Bool
  current : WalRecord
  file : Option WalFile
  deriving DecidableEq

inductive WalWrite where
  | written
  | notOpened
  | torn
  deriving DecidableEq, Repr

namespace CReorgWAL

variable (wal : CReorgWAL)

def writeWAL : WalWrite → Bool × CReorgWAL
  | .written => (true, { wal with file := some (.record wal.current) })
  | .notOpened => (false, wal)
  | .torn => (false, { wal with file := some .unreadable })

def beginReorg (forkPoint currentTip targetTip : Uint256) (disconnectBlocks connectBlocks : List Uint256)
    (write : WalWrite) : Bool × CReorgWAL :=
  if wal.active then (false, wal)
  else writeWAL { wal with
    active := true
    current := ⟨.initialized, forkPoint, currentTip, targetTip, disconnectBlocks, connectBlocks, 0, 0⟩ } write

variable (write : WalWrite)

def enterDisconnectPhase : Bool × CReorgWAL :=
  if !wal.active then (false, wal)
  else writeWAL { wal with current := { wal.current with phase := .disconnecting, disconnectedCount := 0 } } write

def updateDisconnectProgress (count : UInt32) (write : WalWrite) : Bool × CReorgWAL :=
  if !wal.active || wal.current.phase != .disconnecting then (false, wal)
  else writeWAL { wal with current := { wal.current with disconnectedCount := count } } write

def enterConnectPhase : Bool × CReorgWAL :=
  if !wal.active then (false, wal)
  else writeWAL { wal with current := { wal.current with phase := .connecting, connectedCount := 0 } } write

def updateConnectProgress (count : UInt32) (write : WalWrite) : Bool × CReorgWAL :=
  if !wal.active || wal.current.phase != .connecting then (false, wal)
  else writeWAL { wal with current := { wal.current with connectedCount := count } } write

/-- The file goes, unless it cannot be removed, in which case only a warning is logged. -/
def completeReorg (removed : Bool) : CReorgWAL :=
  { active := false
    current := { wal.current with
      phase := .completed, disconnectHashes := [], connectHashes := [], disconnectedCount := 0, connectedCount := 0 }
    file := if removed then none else wal.file }

def abortReorg (removed : Bool) : CReorgWAL := wal.completeReorg removed

/-- What the next start of the node finds: a reorganisation that began and did not end. -/
def leavesIncomplete : Bool :=
  match wal.file with
  | some (.record contents) => contents.phase == .disconnecting || contents.phase == .connecting
  | _ => false

end CReorgWAL

/-! The chain state and its two elementary moves, connecting a block to the tip and disconnecting it
again. Everything the code asks of the outside (disk reads and writes, and the consensus checks that
consult the identity database, the cooldown tracker and the registries) is answered by a `World`, one
answer after the other, so that every pattern of failures is some world. -/

open Lib CBlockIndex

inductive Stage where
  | forward
  | rollback
  deriving DecidableEq, Repr

inductive ContextCheck where
  | proofOfWorkDFMP
  | mikExpiration
  | dnaHashEquality
  | mikAttestations
  | vdfCooldown
  | consecutiveMiner
  | mikWindowCap
  | registrationRateLimit
  deriving DecidableEq, Repr

inductive Question where
  | contextCheck (check : ContextCheck)
  | replacementPreflight
  | readBlock
  | writeBestBlock
  | writeUTXOs
  | writeWAL
  | removeWAL
  deriving DecidableEq, Repr

/-- The answer to the `n`-th question. -/
abbrev World := Stage → Question → Nat → Bool

inductive ChainEvent where
  | blockConnected (blockHash : Uint256) (height : Int) (block : CBlock)
  | blockDisconnected (blockHash : Uint256) (height : Int) (block : CBlock)
  | tipUpdated (blockHash : Uint256)
  deriving DecidableEq

structure CChainState extends BlockTree where
  utxoSet : CUTXOSet
  /-- The block bodies in the database, by the hash they are stored under. -/
  blocks : Table Uint256 CBlock
  /-- The best block recorded in the database. -/
  bestBlock : Option Uint256
  reorgWAL : Option CReorgWAL
  consecutiveUtxoFailures : Nat
  utxoNeedsRebuild : Bool
  lastUndoFailureHash : Uint256
  consecutiveUndoFailures : Nat
  chainNeedsRebuild : Bool
  vdfTipAcceptTime : Int
  vdfTipAcceptHeight : Int
  /-- Newest first. -/
  events : List ChainEvent
  /-- How many questions have been asked. -/
  asked : Nat

namespace CChainState

def maxUtxoFailuresBeforeRebuild : Nat := 3

def persistentUndoFailureThreshold : Nat := 3

section World

variable (world : World) (stage : Stage)

variable (s : CChainState)

def ask (question : Question) : Bool × CChainState :=
  (world stage question s.asked, { s with asked := s.asked + 1 })

def writesAt (asked : Nat) : CUTXOSet.Writes := ⟨world stage .writeUTXOs asked, world stage .writeUTXOs (asked + 1)⟩

def askWalWrite : WalWrite × CChainState :=
  (if world stage .writeWAL s.asked then (if world stage .writeWAL (s.asked + 1) then .written else .torn)
    else .notOpened, { s with asked := s.asked + 2 })

def readBlock (s : CChainState) (hash : Uint256) : Option CBlock × CChainState :=
  if world stage .readBlock s.asked then (s.blocks.lookup hash, { s with asked := s.asked + 1 })
  else (none, { s with asked := s.asked + 1 })

/-- `WriteBestBlock`; the callers ignore whether it succeeds. -/
def writeBestBlock (s : CChainState) (hash : Uint256) : CChainState :=
  if world stage .writeBestBlock s.asked then { s with asked := s.asked + 1, bestBlock := some hash }
  else { s with asked := s.asked + 1 }

def walCall (call : CReorgWAL → WalWrite → Bool × CReorgWAL) : Bool × CChainState :=
  match s.reorgWAL with
  | none => (true, s)
  | some wal =>
    let write := s.askWalWrite world stage
    let result := call wal write.1
    (result.1, { write.2 with reorgWAL := some result.2 })

def walEnd (call : CReorgWAL → Bool → CReorgWAL) : CChainState :=
  match s.reorgWAL with
  | none => s
  | some wal =>
    let removed := s.ask world stage .removeWAL
    { removed.2 with reorgWAL := some (call wal removed.1) }

def passes (s : CChainState) : List ContextCheck → Bool × CChainState
  | [] => (true, s)
  | check :: rest =>
    let answer := s.ask world stage (.contextCheck check)
    if answer.1 then answer.2.passes rest else (false, answer.2)

end World

variable (s : CChainState)

def modifyIndex (hash : Uint256) (change : CBlockIndex → CBlockIndex) : CChainState :=
  { s with mapBlockIndex := s.mapBlockIndex.modify hash change }

def setNext (pnext : Option Uint256) (pindex : CBlockIndex) : CBlockIndex := { pindex with pnext := pnext }

variable (pindex : CBlockIndex)

/-- Changes the entry `pprev` points to, if any. -/
def modifyParent (change : CBlockIndex → CBlockIndex) : CChainState :=
  match pindex.pprev with
  | none => s
  | some parent => s.modifyIndex parent change

def contextChecks (env : Env) (pindex : CBlockIndex) (block : CBlock) (skipValidation : Bool) : List ContextCheck :=
  let assumeValid := decide (0 < env.params.dfmpAssumeValidHeight) &&
    decide (pindex.nHeight ≤ env.params.dfmpAssumeValidHeight)
  let isVDF := block.toCBlockHeader.isVDFBlock
  let tracked := isVDF && env.hasCooldownTracker && !assumeValid
  (if !skipValidation && decide (0 < pindex.nHeight) && decide (env.params.dfmpActivationHeight ≤ pindex.nHeight)
    then [.proofOfWorkDFMP] else []) ++
  (if !skipValidation && isVDF && !assumeValid && decide (0 < pindex.nHeight) then [.mikExpiration] else []) ++
  (if isVDF && env.hasDnaRegistry then [.dnaHashEquality] else []) ++
  (if decide (0 < pindex.nHeight) && !assumeValid then [.mikAttestations] else []) ++
  (if tracked then [.vdfCooldown, .consecutiveMiner, .mikWindowCap, .registrationRateLimit] else [])

/-- A failed `ApplyBlock` is taken for a corrupt set, not for an invalid block. -/
def recordUtxoFailure : CChainState :=
  { s with
    consecutiveUtxoFailures := s.consecutiveUtxoFailures + 1
    utxoNeedsRebuild := s.utxoNeedsRebuild || decide (maxUtxoFailuresBeforeRebuild ≤ s.consecutiveUtxoFailures + 1) }

def flagChainRebuild : CChainState := { s with chainNeedsRebuild := true }

def recordUndoFailure (blockHash : Uint256) : CChainState :=
  let failures := if blockHash = s.lastUndoFailureHash then s.consecutiveUndoFailures + 1 else 1
  let counted := { s with lastUndoFailureHash := blockHash, consecutiveUndoFailures := failures }
  if persistentUndoFailureThreshold ≤ failures then counted.flagChainRebuild else counted

def resetUndoFailureCounter : CChainState :=
  { s with consecutiveUndoFailures := 0, lastUndoFailureHash := .null }

def stored (set : CUTXOSet) : CChainState := { s with utxoSet := set, asked := s.asked + 2 }

def linkTip (hash : Uint256) (pindex : CBlockIndex) (block : CBlock) : CChainState :=
  let linked := (s.modifyParent pindex (setNext (some hash))).modifyIndex hash
    (raise (blockValidChain ||| blockHaveData))
  { linked with
    consecutiveUtxoFailures := 0
    events := .blockConnected hash pindex.nHeight block :: s.events }

def unlinkTip (hash : Uint256) (pindex : CBlockIndex) (block : CBlock) : CChainState :=
  let unlinked := (s.modifyParent pindex (setNext none)).modifyIndex hash fun entry =>
    (setNext none entry).clear blockValidChain
  { unlinked with events := .blockDisconnected hash pindex.nHeight block :: s.events }

section Moves

variable (env : Env) (world : World) (stage : Stage)

def connectTip (s : CChainState) (hash : Uint256) (block : CBlock) (skipValidation : Bool) : Bool × CChainState :=
  match s.getBlockIndex hash with
  | none => (false, s)
  | some pindex =>
    match s.passes world stage (contextChecks env pindex block skipValidation) with
    | (false, s) => (false, s.modifyIndex hash (raise blockFailedValid))
    | (true, s) =>
      match s.utxoSet.applyBlock env (writesAt world stage s.asked) block (UInt32.ofInt pindex.nHeight) hash with
      | (false, set) => (false, (s.stored set).recordUtxoFailure)
      | (true, set) => (true, (s.stored set).linkTip hash pindex block)

def disconnectTip (s : CChainState) (hash : Uint256) : Bool × CChainState :=
  match s.getBlockIndex hash with
  | none => (false, s)
  | some pindex =>
    match s.readBlock world stage hash with
    | (none, s) => (false, s)
    | (some block, s) =>
      match s.utxoSet.undoBlock env (writesAt world stage s.asked) block hash with
      | (false, set) => (false, (s.stored set).recordUndoFailure hash)
      | (true, set) => (true, (s.stored set).resetUndoFailureCounter.unlinkTip hash pindex block)

end Moves

end CChainState

end Dilithion
