import Dilithion.Consensus.Validation
import Dilithion.Dfmp.MikScript
import Dilithion.Lib.SortedMap

/-! How often a miner may win. The tracker follows the winners of the VDF blocks of the active chain through
the callbacks for connected and disconnected blocks, and answers how long a miner has to wait after a win.
The winners of the newest heights stand in a sliding window; the number of miners in it is cached with the
height it was counted for, and queries write the cache. -/

namespace Dilithion

open Lib

abbrev Address := DFMP.Identity

def coinbaseOf (block : CBlock) : Option CTransaction :=
  if block.vtx.isEmpty then none
  else
    match CBlockValidator.deserializeBlockTransactions block with
    | .error _ => none
    | .ok [] => none
    | .ok (coinbase :: _) => if coinbase.isCoinBase then some coinbase else none

def extractCoinbaseAddress (block : CBlock) : Option Address := do
  let coinbase ← coinbaseOf block
  let txout ← coinbase.vout.head?
  if size : 25 ≤ txout.scriptPubKey.length then
    some ⟨(txout.scriptPubKey.drop 3).take 20, by simp; omega⟩
  else none

def extractCoinbaseMIKIdentity (H : HashFunctions) (block : CBlock) : Option Address := do
  let coinbase ← coinbaseOf block
  let txin ← coinbase.vin.head?
  match DFMP.parseMIKFromScriptSig H txin.scriptSig with
  | some mikData => if mikData.identity.isNull then extractCoinbaseAddress block else some mikData.identity
  | none => extractCoinbaseAddress block

structure CooldownParams where
  activeWindow : Int := 360
  shortWindow : Int := 0
  stabilizationHeight : Int := 999999999
  targetBlockTime : Int := 45
  timeBasedExpiryRetiredHeight : Int := 999999999
  timeDecayActivationHeight : Int := 999999999
  timeDecaySeconds : Int := 60

structure CCooldownTracker where
  params : CooldownParams := {}
  lastWinHeight : SortedMap Address Int := .empty
  heightToWinner : SortedMap Int Address := .empty
  lastWinTimestamp : SortedMap Address Int := .empty
  heightToTimestamp : SortedMap Int Int := .empty
  heightToRegistration : SortedMap Int Address := .empty
  lifetimeBlockCount : SortedMap Address Int := .empty
  /-- The heights of each miner's blocks, lowest first, as often as they were recorded. -/
  mikHeights : SortedMap Address (List Int) := .empty
  cachedActiveMiners : Int := 0
  cachedAtHeight : Int := -1
  cachedShortActiveMiners : Int := 0
  cachedShortAtHeight : Int := -1

namespace CCooldownTracker

def minCooldown : Int := 2

def maxCooldown : Int := 100

def calculateCooldown (activeMiners : Int) : Int := min (max (activeMiners * 67 / 100) minCooldown) maxCooldown

variable (heightToWinner : SortedMap Int Address)

def uniqueMiners (window height : Int) : Int :=
  ((heightToWinner.range (height - window + 1) height).map Prod.snd).dedup.length

variable (tracker : CCooldownTracker) (height : Int)

def recalcActiveMiners : CCooldownTracker :=
  if tracker.cachedAtHeight = height then tracker
  else { tracker with
    cachedActiveMiners := uniqueMiners tracker.heightToWinner tracker.params.activeWindow height
    cachedAtHeight := height }

def recalcShortActiveMiners : CCooldownTracker :=
  if tracker.cachedShortAtHeight = height then tracker
  else { tracker with
    cachedShortActiveMiners := if tracker.params.shortWindow ≤ 0 then 0
      else uniqueMiners tracker.heightToWinner tracker.params.shortWindow height
    cachedShortAtHeight := height }

def computeEffectiveCooldown : Int × CCooldownTracker :=
  let tracker := tracker.recalcActiveMiners height
  let longCooldown := calculateCooldown tracker.cachedActiveMiners
  if tracker.params.stabilizationHeight ≤ height ∧ 0 < tracker.params.shortWindow then
    let tracker := tracker.recalcShortActiveMiners height
    (min longCooldown (calculateCooldown tracker.cachedShortActiveMiners), tracker)
  else (longCooldown, tracker)

def getEffectiveCooldown : Int × CCooldownTracker := tracker.computeEffectiveCooldown height

/-- What is left of the cooldown: at the later heights it drains with the time since the last win, before
that it ends with the blocks or, for some heights, with the time. -/
def stillCooling (params : CooldownParams) (height currentTimestamp cooldown lastWin : Int)
    (lastTimestamp : Option Int) : Bool :=
  let known := lastTimestamp.filter fun timestamp => decide (0 < timestamp)
  if params.timeDecayActivationHeight ≤ height then
    let timeSince := match known with
      | some timestamp => if 0 < currentTimestamp then max 0 (currentTimestamp - timestamp) else 0
      | none => 0
    let decay := if 0 < params.timeDecaySeconds then params.timeDecaySeconds else 60
    decide (height - lastWin < max 0 (cooldown - timeSince / decay))
  else if cooldown ≤ height - lastWin then false
  else if params.stabilizationHeight ≤ height ∧ 0 < currentTimestamp ∧ height < params.timeBasedExpiryRetiredHeight then
    match known with
    | some timestamp => !decide (cooldown * params.targetBlockTime ≤ currentTimestamp - timestamp)
    | none => true
  else true

variable (addr : Address)

def isInCooldown (height currentTimestamp : Int) : Bool × CCooldownTracker :=
  match tracker.lastWinHeight.find addr with
  | none => (false, tracker)
  | some lastWin =>
    let (cooldown, asked) := tracker.computeEffectiveCooldown height
    (stillCooling tracker.params height currentTimestamp cooldown lastWin (tracker.lastWinTimestamp.find addr), asked)

def getActiveMiners : Int := tracker.cachedActiveMiners

def getBlockCountInWindow (height window : Int) : Int :=
  (tracker.heightToWinner.range (max 0 (height - window + 1)) height).countP fun entry => decide (entry.2 = addr)

def getRegistrationCount (height window : Int) : Int :=
  (tracker.heightToRegistration.range (max 0 (height - window + 1)) height).length

def getLifetimeMinerCount : Int := tracker.lifetimeBlockCount.entries.length

def getLifetimeMinerCountAtHeight (atHeight : Int) : Int :=
  tracker.mikHeights.entries.countP fun entry => entry.2.head?.any fun first => decide (first ≤ atHeight)

def evict (cutoff : Int) (tracker : CCooldownTracker) (entry : Int × Address) : CCooldownTracker :=
  if cutoff ≤ entry.1 then tracker
  else
    let forgotten := if tracker.lastWinHeight.find entry.2 = some entry.1 then
        { tracker with
          lastWinHeight := tracker.lastWinHeight.erase entry.2
          lastWinTimestamp := tracker.lastWinTimestamp.erase entry.2 }
      else tracker
    { forgotten with
      heightToTimestamp := forgotten.heightToTimestamp.erase entry.1
      heightToWinner := forgotten.heightToWinner.erase entry.1 }

def recordWin (winner : Address) (blockTimestamp : Int) : CCooldownTracker :=
  let recorded := { tracker with
    lastWinHeight := tracker.lastWinHeight.insert winner height
    heightToWinner := tracker.heightToWinner.insert height winner
    lifetimeBlockCount := tracker.lifetimeBlockCount.insert winner ((tracker.lifetimeBlockCount.find winner).getD 0 + 1)
    mikHeights := tracker.mikHeights.insert winner
      (((tracker.mikHeights.find winner).getD []).orderedInsert (· ≤ ·) height) }
  if 0 < blockTimestamp then
    { recorded with
      lastWinTimestamp := recorded.lastWinTimestamp.insert winner blockTimestamp
      heightToTimestamp := recorded.heightToTimestamp.insert height blockTimestamp }
  else recorded

def onBlockConnected (winner : Address) (blockTimestamp : Int) : CCooldownTracker :=
  let recorded := tracker.recordWin height winner blockTimestamp
  let evicted := recorded.heightToWinner.entries.foldl (evict (height - tracker.params.activeWindow + 1)) recorded
  { evicted.recalcActiveMiners height with cachedShortAtHeight := -1 }

def onRegistrationConnected (mikId : Address) : CCooldownTracker :=
  { tracker with heightToRegistration := tracker.heightToRegistration.insert height mikId }

def forgetLifetime (winner : Address) : CCooldownTracker :=
  { tracker with
    lifetimeBlockCount := match tracker.lifetimeBlockCount.find winner with
      | none => tracker.lifetimeBlockCount
      | some count =>
        if count - 1 ≤ 0 then tracker.lifetimeBlockCount.erase winner
        else tracker.lifetimeBlockCount.insert winner (count - 1)
    mikHeights := match tracker.mikHeights.find winner with
      | none => tracker.mikHeights
      | some heights =>
        if (heights.erase height).isEmpty then tracker.mikHeights.erase winner
        else tracker.mikHeights.insert winner (heights.erase height) }

variable (winner : Address)

def newestWin : Int :=
  ((heightToWinner.entries.reverse.find? fun entry => decide (entry.2 = winner)).map Prod.fst).getD (-1)

def restoreLastWin : CCooldownTracker :=
  let lastWin := newestWin tracker.heightToWinner winner
  if 0 ≤ lastWin then
    { tracker with
      lastWinHeight := tracker.lastWinHeight.insert winner lastWin
      lastWinTimestamp := match tracker.heightToTimestamp.find lastWin with
        | some timestamp => tracker.lastWinTimestamp.insert winner timestamp
        | none => tracker.lastWinTimestamp.erase winner }
  else
    { tracker with
      lastWinHeight := tracker.lastWinHeight.erase winner
      lastWinTimestamp := tracker.lastWinTimestamp.erase winner }

def eraseHeight : CCooldownTracker :=
  { tracker with
    heightToTimestamp := tracker.heightToTimestamp.erase height
    heightToRegistration := tracker.heightToRegistration.erase height }

def invalidate : CCooldownTracker := { tracker with cachedAtHeight := -1, cachedShortAtHeight := -1 }

/-- A height that has left the window is looked for among the heights of all miners; one that was never
recorded changes nothing. -/
def onBlockDisconnected : CCooldownTracker :=
  match tracker.heightToWinner.find height with
  | some winner =>
    let erased := { tracker with heightToWinner := tracker.heightToWinner.erase height }
    (((erased.eraseHeight height).forgetLifetime height winner).restoreLastWin winner).invalidate
  | none =>
    match tracker.mikHeights.entries.find? fun entry => entry.2.contains height with
    | none => tracker
    | some (winner, _) => ((tracker.eraseHeight height).forgetLifetime height winner).invalidate

def getCooldownBlocks : Int := calculateCooldown tracker.cachedActiveMiners

def getLastWinHeight : Int := (tracker.lastWinHeight.find addr).getD (-1)

def effectiveCooldownOf (params : CooldownParams) (heightToWinner : SortedMap Int Address) (height : Int) : Int :=
  let longCooldown := calculateCooldown (uniqueMiners heightToWinner params.activeWindow height)
  if params.stabilizationHeight ≤ height ∧ 0 < params.shortWindow then
    min longCooldown (calculateCooldown (uniqueMiners heightToWinner params.shortWindow height))
  else longCooldown

/-- The cooldown as it would be without the block at `excludeHeight`. A height that is not in the window leaves
the query as it is, caches included. -/
def isInCooldownExcludingHeight (height currentTimestamp excludeHeight : Int) : Bool × CCooldownTracker :=
  if excludeHeight < 0 then tracker.isInCooldown addr height currentTimestamp
  else
    match tracker.heightToWinner.find excludeHeight with
    | none => tracker.isInCooldown addr height currentTimestamp
    | some excludedWinner =>
      let sim := { tracker with
        heightToWinner := tracker.heightToWinner.erase excludeHeight
        heightToTimestamp := tracker.heightToTimestamp.erase excludeHeight }.restoreLastWin excludedWinner
      match sim.lastWinHeight.find addr with
      | none => (false, tracker)
      | some lastWin =>
        let cooldown := effectiveCooldownOf tracker.params sim.heightToWinner height
        (stillCooling tracker.params height currentTimestamp cooldown lastWin (sim.lastWinTimestamp.find addr), tracker)

def getActiveMinersExcludingHeight (height excludeHeight : Int) : Int :=
  if excludeHeight < 0 ∨ tracker.heightToWinner.find excludeHeight = none then
    uniqueMiners tracker.heightToWinner tracker.params.activeWindow height
  else uniqueMiners (tracker.heightToWinner.erase excludeHeight) tracker.params.activeWindow height

end CCooldownTracker

/-! The rules on miners of VDF blocks: the cooldown after a win, the limit on consecutive blocks and the cap for
a window. `ConnectTip` applies them on the tracker, and a preflight tries them before the tip is given up
for a competing block. A query may change the tracker's caches, so every check returns the tracker. -/

structure VDFRules where
  dfmpCooldownConsensusHeight : Int
  consecutiveMinerCheckHeight : Int
  soloExemptionLifetimeGateHeight : Int
  consecutiveMinerStallExemptionRetiredHeight : Int
  mikWindowCapWindow : Int
  mikWindowCapFloor : Int
  livenessTimeoutSec : Int
  timeDecayCooldownActivationHeight : Int
  stabilizationForkHeight : Int
  stallExemptionV2Height : Int

/-- An entry of the index below the block, with its block if the database has it. -/
structure Ancestor where
  nTime : UInt32
  stored : Option CBlock

/-- A VDF block that is to be connected on its ancestors, nearest first. -/
structure Candidate where
  block : CBlock
  height : Int
  ancestors : List Ancestor

namespace Candidate

def time (candidate : Candidate) : Int := candidate.block.nTime.toNat

def gap (candidate : Candidate) : Option Int := candidate.ancestors.head?.map fun parent =>
    candidate.time - parent.nTime.toNat

end Candidate

abbrev Verdict := Option String × CCooldownTracker

def maxConsecutiveSameMiner : Nat := 3

def bootstrapMinerThreshold : Int := 5

def consecutiveStallThresholdSecs : Int := 3600

def stallThresholdV2 : Int := 600

def stallUnconditional : Int := 1200

def DFMP.Identity.shortHex (identity : DFMP.Identity) : String :=
  String.ofList ((identity.data.take 4).flatMap fun byte =>
    [Uint256.hexDigits.getD (byte.toNat / 16) '0', Uint256.hexDigits.getD (byte.toNat % 16) '0'])

section

variable (rules : VDFRules) (hashes : HashFunctions)

def checkVDFCooldown (block : CBlock) (height : Int) (tracker : CCooldownTracker) (blockTimestamp : Int) : Verdict :=
  if height < rules.dfmpCooldownConsensusHeight then (none, tracker)
  else if !block.toCBlockHeader.isVDFBlock then (none, tracker)
  else if height = 0 then (none, tracker)
  else
    match extractCoinbaseMIKIdentity hashes block with
    | none => (some "CheckVDFCooldown: cannot extract MIK identity from coinbase", tracker)
    | some mikId =>
      -- the log of the state asks for the cooldown first
      let tracker := (tracker.getEffectiveCooldown height).2
      let (cooling, tracker) := tracker.isInCooldown mikId height blockTimestamp
      if cooling then
        (some ("CheckVDFCooldown: MIK " ++ mikId.shortHex ++ "... violated cooldown (last win: " ++
          toString (tracker.getLastWinHeight mikId) ++ ", cooldown: " ++
            toString tracker.getCooldownBlocks ++ ", active miners: " ++
          toString tracker.getActiveMiners ++ ", height: " ++ toString height ++ ", gap: " ++
          toString (height - tracker.getLastWinHeight mikId) ++ ")"), tracker)
      else (none, tracker)

def consecutiveBlocks (mikId : Address) : Nat → List Ancestor → Nat
  | 0, _ => 0
  | _, [] => 0
  | limit + 1, parent :: rest =>
    if parent.stored.bind (extractCoinbaseMIKIdentity hashes) = some mikId then consecutiveBlocks mikId limit rest + 1
    else 0

variable (candidate : Candidate) (tracker : CCooldownTracker)

/-- Before its retirement the limit gives way after an hour without a block. -/
def stallExempt : Bool :=
  decide (candidate.height < rules.consecutiveMinerStallExemptionRetiredHeight) &&
    candidate.gap.any fun gap => decide (consecutiveStallThresholdSecs ≤ gap)

def checkConsecutiveMiner : Verdict :=
  if candidate.height < rules.consecutiveMinerCheckHeight then (none, tracker)
  else if !candidate.block.toCBlockHeader.isVDFBlock then (none, tracker)
  else
    match extractCoinbaseMIKIdentity hashes candidate.block with
    | none => (some "CheckConsecutiveMiner: cannot extract MIK identity", tracker)
    | some currentMik =>
      let tracker := (tracker.isInCooldown currentMik candidate.height 0).2
      let activeMiners := tracker.getActiveMiners
      if activeMiners ≤ 1 ∧ (candidate.height < rules.soloExemptionLifetimeGateHeight ∨
          tracker.getLifetimeMinerCount ≤ bootstrapMinerThreshold) then (none, tracker)
      else
        let consecutiveCount := consecutiveBlocks hashes currentMik maxConsecutiveSameMiner candidate.ancestors
        if maxConsecutiveSameMiner ≤ consecutiveCount then
          if stallExempt rules candidate then (none, tracker)
          else
            (some ("CheckConsecutiveMiner: MIK " ++ currentMik.shortHex ++ "... has mined " ++
              toString (consecutiveCount + 1) ++ " consecutive blocks (max " ++ toString maxConsecutiveSameMiner ++
              ", active miners: " ++ toString activeMiners ++ ")"), tracker)
        else (none, tracker)

def checkMIKWindowCap (block : CBlock) (height : Int) (tracker : CCooldownTracker) (prevBlockTime blockTime : Int) :
    Option String :=
  if rules.mikWindowCapWindow ≤ 0 ∨ rules.mikWindowCapFloor ≤ 0 then none
  else if !block.toCBlockHeader.isVDFBlock then none
  else if height = 0 then none
  else if tracker.getActiveMiners ≤ 1 then none
  else if 0 < rules.livenessTimeoutSec ∧ 0 < prevBlockTime ∧ 0 < blockTime ∧
    rules.livenessTimeoutSec ≤ blockTime - prevBlockTime then none
  else
    match extractCoinbaseMIKIdentity hashes block with
    | none => some "CheckMIKWindowCap: cannot extract MIK identity from coinbase"
    | some mikId =>
      let count := tracker.getBlockCountInWindow mikId (height - 1) rules.mikWindowCapWindow
      if rules.mikWindowCapFloor ≤ count then
        some ("CheckMIKWindowCap: MIK " ++ mikId.shortHex ++ "... exceeded window cap (" ++
          toString count ++ " blocks in " ++
          toString rules.mikWindowCapWindow ++ "-block window, cap=" ++
            toString rules.mikWindowCapFloor ++ ", active miners=" ++
          toString tracker.getActiveMiners ++ ")")
      else none

/-- Before the decay with time, a long gap to the parent suspends the cooldown: from a second version on only for
a miner other than the parent's, unless there is one miner only or the gap is twice as long. -/
def chainStalled : Bool × CCooldownTracker :=
  if rules.stabilizationForkHeight ≤ candidate.height then (false, tracker)
  else
    match candidate.ancestors.head?, candidate.gap with
    | some parent, some gap =>
      if rules.stallExemptionV2Height ≤ candidate.height then
        if stallThresholdV2 ≤ gap ∧ gap < stallUnconditional then
          match extractCoinbaseMIKIdentity hashes candidate.block,
              parent.stored.bind (extractCoinbaseMIKIdentity hashes) with
          | some currentMik, some prevMik =>
            if currentMik = prevMik then
              let tracker := (tracker.isInCooldown currentMik candidate.height 0).2
              (decide (tracker.getActiveMiners ≤ 1), tracker)
            else (true, tracker)
          | _, _ => (true, tracker)
        else (decide (stallThresholdV2 ≤ gap), tracker)
      else (decide (300 ≤ gap), tracker)
    | _, _ => (false, tracker)

/-- The cooldown rule as `ConnectTip` applies it above the assume-valid height. -/
def connectCooldown : Verdict :=
  if rules.timeDecayCooldownActivationHeight ≤ candidate.height then
    checkVDFCooldown rules hashes candidate.block candidate.height tracker candidate.time
  else
    let (stalled, tracker) := chainStalled rules hashes candidate tracker
    if stalled then (none, tracker)
    else checkVDFCooldown rules hashes candidate.block candidate.height tracker candidate.time

def Candidate.prevTime : Int := ((candidate.ancestors.head?.map Ancestor.nTime).getD 0).toNat

/-- The three rules in the order of `ConnectTip`, for a VDF block above the assume-valid height. -/
def connectChecks : Option String :=
  match connectCooldown rules hashes candidate tracker with
  | (some error, _) => some error
  | (none, tracker) =>
    match checkConsecutiveMiner rules hashes candidate tracker with
    | (some error, _) => some error
    | (none, tracker) => checkMIKWindowCap rules hashes candidate.block candidate.height tracker
        candidate.prevTime candidate.time

def checkVDFReplacementPreflight (tipHeight : Int) (tracker : CCooldownTracker) : Verdict :=
  if !candidate.block.toCBlockHeader.isVDFBlock then (none, tracker)
  else
    match extractCoinbaseMIKIdentity hashes candidate.block with
    | none => (some "CheckVDFReplacementPreflight: cannot extract MIK identity", tracker)
    | some mikId =>
      let (cooling, tracker) := if rules.dfmpCooldownConsensusHeight ≤ candidate.height then
          tracker.isInCooldownExcludingHeight mikId candidate.height candidate.time tipHeight
        else (false, tracker)
      if cooling then (some "CheckVDFReplacementPreflight: cooldown preflight failed", tracker)
      else
        let activeMiners := tracker.getActiveMinersExcludingHeight candidate.height tipHeight
        if rules.consecutiveMinerCheckHeight ≤ candidate.height ∧ 1 < activeMiners ∧
            maxConsecutiveSameMiner ≤ consecutiveBlocks hashes mikId maxConsecutiveSameMiner candidate.ancestors ∧
            ¬ stallExempt rules candidate then
          (some "CheckVDFReplacementPreflight: consecutive-miner preflight failed", tracker)
        else if (0 < rules.mikWindowCapWindow ∧ 0 < rules.mikWindowCapFloor ∧ 0 < candidate.height) ∧ 1 < activeMiners ∧
            ¬ (0 < rules.livenessTimeoutSec ∧ 0 < candidate.prevTime ∧
              rules.livenessTimeoutSec ≤ candidate.time - candidate.prevTime) ∧
            rules.mikWindowCapFloor ≤ tracker.getBlockCountInWindow mikId
              (candidate.height - 1) rules.mikWindowCapWindow then
          (some "CheckVDFReplacementPreflight: window-cap preflight failed", tracker)
        else (none, tracker)

end

end Dilithion
