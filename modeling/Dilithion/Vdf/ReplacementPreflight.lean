import Dilithion.Vdf.CooldownAnswers

/-! What the preflight for a replacement of the tip is worth. The tracker without the tip is the one that the
disconnect leaves, up to its caches, so the rules on both sides read the same wins. They differ in the
number of active miners: the preflight counts it afresh, the connect path takes what is cached. And they
differ in the exemption for a sole miner, which only the connect path ties to the lifetime count. -/

namespace Dilithion

open Lib CCooldownTracker TrackedChain SortedMap Option

namespace CCooldownTracker

variable {tracker : CCooldownTracker} {height : Int}

def counted (tracker : CCooldownTracker) (height : Int) : CCooldownTracker :=
  (tracker.computeEffectiveCooldown height).2

def countedIf (tracker : CCooldownTracker) (asked : Bool) (height : Int) : CCooldownTracker :=
  if asked then tracker.counted height else tracker

lemma recalcActiveMiners_of_cached (cached : tracker.cachedAtHeight = height) :
    tracker.recalcActiveMiners height = tracker :=
  if_pos cached

lemma recalcShortActiveMiners_of_cached (cached : tracker.cachedShortAtHeight = height) :
    tracker.recalcShortActiveMiners height = tracker :=
  if_pos cached

section

variable (tracker)

section

variable (height)

lemma caches_recalcShortActiveMiners : (tracker.recalcShortActiveMiners height).cachedShortAtHeight = height ∧
    (tracker.recalcShortActiveMiners height).cachedAtHeight = tracker.cachedAtHeight ∧
    (tracker.recalcShortActiveMiners height).cachedActiveMiners = tracker.cachedActiveMiners ∧
    (tracker.recalcShortActiveMiners height).params = tracker.params := by
  unfold recalcShortActiveMiners
  split
  case isTrue cached => exact ⟨cached, rfl, rfl, rfl⟩
  case isFalse => exact ⟨rfl, rfl, rfl, rfl⟩

lemma cachedAtHeight_counted : (tracker.counted height).cachedAtHeight = height := by
  unfold counted computeEffectiveCooldown
  dsimp only
  split
  · rw [(caches_recalcShortActiveMiners _ height).2.1, cachedAtHeight_recalcActiveMiners]
  · exact cachedAtHeight_recalcActiveMiners tracker height

lemma computeEffectiveCooldown_counted :
    (tracker.counted height).computeEffectiveCooldown height = tracker.computeEffectiveCooldown height := by
  have cached := cachedAtHeight_counted tracker height
  unfold counted computeEffectiveCooldown at cached ⊢
  dsimp only at cached ⊢
  split
  case isTrue late =>
    rw [if_pos late] at cached
    have params := (caches_recalcShortActiveMiners (tracker.recalcActiveMiners height) height).2.2.2
    rw [recalcActiveMiners_of_cached cached, params, if_pos late,
      recalcShortActiveMiners_of_cached (caches_recalcShortActiveMiners _ height).1,
        (caches_recalcShortActiveMiners _ height).2.2.1]
  case isFalse early =>
    rw [if_neg early] at cached
    rw [recalcActiveMiners_of_cached cached, if_neg early]

lemma counted_counted : (tracker.counted height).counted height = tracker.counted height :=
  congrArg Prod.snd (computeEffectiveCooldown_counted tracker height)

end

/-- Counting the miners changes nothing but the caches. -/
lemma reads_countedIf {α : Type} (read : CCooldownTracker → α)
    (blind : ∀ tracker : CCooldownTracker, read tracker.uncached = read tracker)
    (asked : Bool) (height : Int) : read (tracker.countedIf asked height) = read tracker := by
  cases asked with
  | false => rfl
  | true =>
    have counted := congrArg read (uncached_computeEffectiveCooldown tracker height)
    exact (blind _).symm.trans (counted.trans (blind tracker))

lemma countedIf_countedIf (first second : Bool) (height : Int) :
    (tracker.countedIf first height).countedIf second height = tracker.countedIf (first || second) height := by
  cases first <;> cases second <;> simp [countedIf, counted_counted]

lemma isInCooldown_eq (addr : Address) (height currentTimestamp : Int) :
    tracker.isInCooldown addr height currentTimestamp =
      ((tracker.lastWinHeight.find addr).any fun lastWin => stillCooling tracker.params height currentTimestamp
        (tracker.computeEffectiveCooldown height).1 lastWin (tracker.lastWinTimestamp.find addr),
      tracker.countedIf (tracker.lastWinHeight.find addr).isSome height) := by
  unfold isInCooldown
  cases tracker.lastWinHeight.find addr with
  | none => rfl
  | some lastWin => rfl

lemma isInCooldown_countedIf (asked : Bool) (addr : Address) (height currentTimestamp : Int) :
    ((tracker.countedIf asked height).isInCooldown addr height currentTimestamp).1 =
      (tracker.isInCooldown addr height currentTimestamp).1 := by
  have effective : ((tracker.countedIf asked height).computeEffectiveCooldown height).1 =
      (tracker.computeEffectiveCooldown height).1 := by
    cases asked with
    | false => rfl
    | true => exact congrArg Prod.fst (computeEffectiveCooldown_counted tracker height)
  rw [isInCooldown_eq, isInCooldown_eq, reads_countedIf tracker lastWinHeight fun _ => rfl,
    reads_countedIf tracker lastWinTimestamp fun _ => rfl, reads_countedIf tracker params fun _ => rfl, effective]

lemma getActiveMiners_countedIf (asked : Bool) (height : Int) : (tracker.countedIf asked height).getActiveMiners =
    if asked = true ∧ tracker.cachedAtHeight ≠ height then
      uniqueMiners tracker.heightToWinner tracker.params.activeWindow height
    else tracker.cachedActiveMiners := by
  have recalc : (tracker.recalcActiveMiners height).cachedActiveMiners =
      if tracker.cachedAtHeight ≠ height then uniqueMiners tracker.heightToWinner tracker.params.activeWindow height
      else tracker.cachedActiveMiners := by
    unfold recalcActiveMiners
    by_cases cached : tracker.cachedAtHeight = height
    · rw [if_pos cached, if_neg (not_not.mpr cached)]
    · rw [if_neg cached, if_pos cached]
  cases asked with
  | false => simp [countedIf, getActiveMiners]
  | true =>
    simp only [true_and, ← recalc]
    unfold countedIf counted computeEffectiveCooldown getActiveMiners
    rw [if_pos rfl]
    dsimp only
    split
    · exact (caches_recalcShortActiveMiners _ height).2.2.1
    · rfl

end

/-- Without caches for the height the cooldown is counted afresh. -/
lemma effective_eq_of_uncached (long : tracker.cachedAtHeight ≠ height) (short : tracker.cachedShortAtHeight ≠ height) :
    (tracker.computeEffectiveCooldown height).1 = effectiveCooldownOf tracker.params tracker.heightToWinner height := by
  unfold computeEffectiveCooldown effectiveCooldownOf recalcActiveMiners
  dsimp only
  rw [if_neg long]
  split
  case isTrue late =>
    unfold recalcShortActiveMiners
    rw [if_neg short, if_neg (not_le.mpr late.2)]
  case isFalse => rfl

def OnlyInLifetime (tracker : CCooldownTracker) (height : Int) : Prop :=
  tracker.heightToWinner.find height = none ∧
    (tracker.mikHeights.entries.any fun entry => entry.2.contains height) = true

lemma onBlockDisconnected_of_unknown (absent : tracker.heightToWinner.find height = none)
    (unrecorded : ¬ (tracker.mikHeights.entries.any fun entry => entry.2.contains height) = true) :
    tracker.onBlockDisconnected height = tracker := by
  unfold onBlockDisconnected
  rw [absent, List.find?_eq_none.mpr (by simpa using unrecorded)]

lemma caches_onBlockDisconnected
    (found : tracker.heightToWinner.find height ≠ none ∨
      (tracker.mikHeights.entries.any fun entry => entry.2.contains height) = true) :
    (tracker.onBlockDisconnected height).cachedAtHeight = -1 ∧
    (tracker.onBlockDisconnected height).cachedShortAtHeight = -1 := by
  unfold onBlockDisconnected
  split
  case h_1 => exact ⟨rfl, rfl⟩
  case h_2 absent =>
    split
    case h_1 unrecorded =>
      rcases found with won | recorded
      · exact absurd absent won
      · obtain ⟨entry, inside, holds⟩ := List.any_eq_true.mp recorded
        exact absurd holds (List.find?_eq_none.mp unrecorded entry inside)
    case h_2 => exact ⟨rfl, rfl⟩

section

variable (tracker)

lemma onBlockDisconnected_params (height : Int) : (tracker.onBlockDisconnected height).params = tracker.params := by
  unfold onBlockDisconnected
  split
  · unfold restoreLastWin
    dsimp only
    split <;> rfl
  · split <;> rfl

lemma heightToWinner_onBlockDisconnected (height : Int) :
    (tracker.onBlockDisconnected height).heightToWinner = tracker.heightToWinner.erase height := by
  unfold onBlockDisconnected
  cases won : tracker.heightToWinner.find height with
  | none =>
    rw [erase_of_absent (find_eq_none_iff.mp won)]
    dsimp only
    split <;> rfl
  | some winner =>
    unfold restoreLastWin
    dsimp only
    split <;> rfl

/-- The active miners without a height are those that are left after its disconnect. -/
lemma getActiveMinersExcludingHeight_eq {excludeHeight : Int} (nonneg : 0 ≤ excludeHeight) (height : Int) :
    tracker.getActiveMinersExcludingHeight height excludeHeight =
      uniqueMiners (tracker.onBlockDisconnected excludeHeight).heightToWinner
      (tracker.onBlockDisconnected excludeHeight).params.activeWindow height := by
  rw [onBlockDisconnected_params, heightToWinner_onBlockDisconnected]
  unfold getActiveMinersExcludingHeight
  split
  case isTrue outside =>
    have absent := outside.resolve_left (not_lt.mpr nonneg)
    rw [erase_of_absent (find_eq_none_iff.mp absent)]
  case isFalse => rfl

end

lemma restoreLastWin_congr (first second : CCooldownTracker) (winner : Address)
    (winners : first.heightToWinner = second.heightToWinner)
    (timestamps : first.heightToTimestamp = second.heightToTimestamp)
    (lastWin : first.lastWinHeight = second.lastWinHeight)
    (lastTime : first.lastWinTimestamp = second.lastWinTimestamp) :
    (first.restoreLastWin winner).lastWinHeight = (second.restoreLastWin winner).lastWinHeight ∧
      (first.restoreLastWin winner).lastWinTimestamp = (second.restoreLastWin winner).lastWinTimestamp ∧
      (first.restoreLastWin winner).heightToWinner = (second.restoreLastWin winner).heightToWinner := by
  unfold restoreLastWin
  rw [winners]
  dsimp only
  split
  · exact ⟨by rw [lastWin], by rw [timestamps, lastTime], rfl⟩
  · exact ⟨by rw [lastWin], by rw [lastTime], rfl⟩

lemma isInCooldownExcludingHeight_of_window {excludeHeight : Int} {winner : Address} (nonneg : 0 ≤ excludeHeight)
    (won : tracker.heightToWinner.find excludeHeight = some winner) (above : 0 ≤ height) (addr : Address)
    (currentTimestamp : Int) :
    tracker.isInCooldownExcludingHeight addr height currentTimestamp excludeHeight =
      (((tracker.onBlockDisconnected excludeHeight).isInCooldown addr height currentTimestamp).1, tracker) := by
  have found : tracker.heightToWinner.find excludeHeight ≠ none := by simp [won]
  obtain ⟨long, short⟩ := caches_onBlockDisconnected (.inl found)
  have params := onBlockDisconnected_params tracker excludeHeight
  rw [isInCooldown_eq, effective_eq_of_uncached (by omega) (by omega), params]
  unfold isInCooldownExcludingHeight onBlockDisconnected
  rw [if_neg (by omega), won]
  obtain ⟨lastWin, lastTime, winners⟩ := restoreLastWin_congr
    (({ tracker with heightToWinner := tracker.heightToWinner.erase excludeHeight }.eraseHeight
      excludeHeight).forgetLifetime
      excludeHeight winner)
    { tracker with
      heightToWinner := tracker.heightToWinner.erase excludeHeight
      heightToTimestamp := tracker.heightToTimestamp.erase excludeHeight } winner rfl rfl rfl rfl
  dsimp only [invalidate]
  rw [lastWin, lastTime, winners]
  split
  case h_1 unknown => rw [unknown]; rfl
  case h_2 found known => rw [known]; rfl

lemma isInCooldownExcludingHeight_of_absent (absent : tracker.heightToWinner.find height = none) (addr : Address)
    (currentTimestamp : Int) :
    tracker.isInCooldownExcludingHeight addr height currentTimestamp height =
      tracker.isInCooldown addr height currentTimestamp := by
  unfold isInCooldownExcludingHeight
  rw [absent]
  split <;> rfl

/-- A query without a height of the window is the query after the disconnect of that height. -/
theorem exclusion_simulates_disconnect (tracker : CCooldownTracker) {excludeHeight : Nat} {winner : Address}
    (won : tracker.heightToWinner.find excludeHeight = some winner) (addr : Address) (height : Nat)
    (currentTimestamp : Int) :
    (tracker.isInCooldownExcludingHeight addr height currentTimestamp excludeHeight).1 =
        ((tracker.onBlockDisconnected excludeHeight).isInCooldown addr height currentTimestamp).1 ∧
      tracker.getActiveMinersExcludingHeight height excludeHeight =
        ((tracker.onBlockDisconnected excludeHeight).recalcActiveMiners height).getActiveMiners := by
  have nonneg (other : Nat) : (0 : Int) ≤ other := Int.natCast_nonneg other
  constructor
  · rw [isInCooldownExcludingHeight_of_window (nonneg _) won (nonneg _)]
  · have stale := (caches_onBlockDisconnected
      (.inl (by simp [won] : tracker.heightToWinner.find excludeHeight ≠ none))).1
    rw [getActiveMinersExcludingHeight_eq tracker (nonneg _), recalcActiveMiners, if_neg (by omega), getActiveMiners]

def oneWin : CCooldownTracker := onBlockConnected {} 5 (payeeAddress 7) 100

theorem exclusion_of_last_win : oneWin.heightToWinner.find (5 : Nat) = some (payeeAddress 7) ∧
    (oneWin.isInCooldownExcludingHeight (payeeAddress 7) 6 200 5).1 =
      ((oneWin.onBlockDisconnected 5).isInCooldown (payeeAddress 7) 6 200).1 := by
  have won : oneWin.heightToWinner.find (5 : Nat) = some (payeeAddress 7) := by decide
  exact ⟨won, (exclusion_simulates_disconnect oneWin won (payeeAddress 7) 6 200).1⟩

end CCooldownTracker

section

variable (rules : VDFRules) (hashes : HashFunctions) (candidate : Candidate)
  (tracker : CCooldownTracker) (mikId : Address)

/-- The stall rule asks the tracker: the gap is long, not twice as long, and the parent is of the same miner. -/
def stallQuery : Bool :=
  decide (candidate.height < rules.stabilizationForkHeight) &&
    decide (rules.stallExemptionV2Height ≤ candidate.height) &&
    (candidate.gap.any fun gap => decide (stallThresholdV2 ≤ gap ∧ gap < stallUnconditional)) &&
    decide ((candidate.ancestors.head?.bind Ancestor.stored).bind (extractCoinbaseMIKIdentity hashes) = some mikId)

def cooldownApplies : Bool :=
  decide (rules.dfmpCooldownConsensusHeight ≤ candidate.height) && decide (candidate.height ≠ 0) &&
    (decide (rules.timeDecayCooldownActivationHeight ≤ candidate.height) ||
      !(chainStalled rules hashes candidate tracker).1)

structure MinedBy : Prop where
  isVDF : candidate.block.toCBlockHeader.isVDFBlock = true
  isMiner : extractCoinbaseMIKIdentity hashes candidate.block = some mikId

def FourthInRow : Prop :=
  rules.consecutiveMinerCheckHeight ≤ candidate.height ∧
    maxConsecutiveSameMiner ≤ consecutiveBlocks hashes mikId maxConsecutiveSameMiner candidate.ancestors ∧
    stallExempt rules candidate = false

def OverCap : Prop :=
  (0 < rules.mikWindowCapWindow ∧ 0 < rules.mikWindowCapFloor ∧ 0 < candidate.height) ∧
    ¬ (0 < rules.livenessTimeoutSec ∧ 0 < candidate.prevTime ∧
      rules.livenessTimeoutSec ≤ candidate.time - candidate.prevTime) ∧
    rules.mikWindowCapFloor ≤ tracker.getBlockCountInWindow mikId (candidate.height - 1) rules.mikWindowCapWindow

def preflightQuery : Bool :=
  decide (rules.dfmpCooldownConsensusHeight ≤ candidate.height) &&
    (tracker.heightToWinner.find candidate.height).isNone &&
    (tracker.lastWinHeight.find mikId).isSome

variable {rules hashes candidate tracker mikId}

lemma chainStalled_snd (rules : VDFRules) (tracker : CCooldownTracker)
    (isMiner : extractCoinbaseMIKIdentity hashes candidate.block = some mikId) :
    (chainStalled rules hashes candidate tracker).2 =
      tracker.countedIf (stallQuery rules hashes candidate mikId && (tracker.lastWinHeight.find mikId).isSome)
        candidate.height := by
  unfold chainStalled stallQuery
  split
  case isTrue late => simp [not_lt.mpr late, countedIf]
  case isFalse early =>
    cases parents : candidate.ancestors with
    | nil => simp [Candidate.gap, parents, countedIf]
    | cons parent rest =>
      simp only [Candidate.gap, parents, List.head?_cons, map_some, any_some, bind_some]
      split
      case isFalse first => simp [first, countedIf]
      case isTrue second =>
        split
        case isFalse short => simp [short, countedIf]
        case isTrue long =>
          rw [isMiner]
          rcases eq_none_or_eq_some (parent.stored.bind (extractCoinbaseMIKIdentity hashes)) with
            unknown | ⟨prevMik, known⟩
          · simp [unknown, countedIf]
          · by_cases same : mikId = prevMik
            · subst same
              simp [known, not_le.mp early, second, long, isInCooldown_eq]
            · simp [known, same, Ne.symm same, countedIf]

lemma checkVDFCooldown_of_gated
    (gated : ¬ (rules.dfmpCooldownConsensusHeight ≤ candidate.height ∧ candidate.height ≠ 0)) :
    checkVDFCooldown rules hashes candidate.block candidate.height tracker candidate.time = (none, tracker) := by
  unfold checkVDFCooldown
  split
  · rfl
  · split
    · rfl
    · split
      · rfl
      case isFalse early _ zero => exact absurd ⟨not_lt.mp early, zero⟩ gated

lemma checkVDFCooldown_of_enforced (tracker : CCooldownTracker) (mined : MinedBy hashes candidate mikId)
    (enforced : rules.dfmpCooldownConsensusHeight ≤ candidate.height ∧ candidate.height ≠ 0) :
    ((checkVDFCooldown rules hashes candidate.block candidate.height tracker candidate.time).1 = none ↔
      (tracker.isInCooldown mikId candidate.height candidate.time).1 = false) ∧
    (checkVDFCooldown rules hashes candidate.block candidate.height tracker candidate.time).2 =
      tracker.countedIf true candidate.height := by
  have answer := tracker.isInCooldown_countedIf true mikId candidate.height candidate.time
  have state : ((tracker.countedIf true candidate.height).isInCooldown mikId candidate.height candidate.time).2 =
      tracker.countedIf true candidate.height := by
    rw [isInCooldown_eq]
    rw [countedIf_countedIf, Bool.true_or]
  have queried : (tracker.getEffectiveCooldown candidate.height).2 = tracker.countedIf true candidate.height := rfl
  unfold checkVDFCooldown
  rw [if_neg (not_lt.mpr enforced.1), mined.isVDF, if_neg enforced.2, mined.isMiner]
  dsimp only
  rw [queried, answer, state]
  cases (tracker.isInCooldown mikId candidate.height candidate.time).1 with
  | true => exact ⟨by simp, rfl⟩
  | false => exact ⟨by simp, rfl⟩

/-- The cooldown rule on the connect path, and what its queries leave. -/
lemma connectCooldown_spec (rules : VDFRules) (tracker : CCooldownTracker) (mined : MinedBy hashes candidate mikId) :
    ((connectCooldown rules hashes candidate tracker).1 = none ↔
      (cooldownApplies rules hashes candidate tracker = true →
        (tracker.isInCooldown mikId candidate.height candidate.time).1 = false)) ∧
    (connectCooldown rules hashes candidate tracker).2 =
      tracker.countedIf (cooldownApplies rules hashes candidate tracker ||
        (!decide (rules.timeDecayCooldownActivationHeight ≤ candidate.height) &&
          stallQuery rules hashes candidate mikId &&
          (tracker.lastWinHeight.find mikId).isSome)) candidate.height := by
  have stallState := chainStalled_snd rules tracker mined.isMiner
  unfold connectCooldown cooldownApplies
  by_cases enforced : rules.dfmpCooldownConsensusHeight ≤ candidate.height ∧ candidate.height ≠ 0
  · split
    case isTrue decays =>
      obtain ⟨verdict, state⟩ := checkVDFCooldown_of_enforced tracker mined enforced
      rw [verdict, state]
      simp [enforced, decays]
    case isFalse legacy =>
      dsimp only
      rw [stallState]
      cases stalled : (chainStalled rules hashes candidate tracker).1 with
      | true => simp [enforced, legacy]
      | false =>
        obtain ⟨verdict, state⟩ := checkVDFCooldown_of_enforced
          (tracker.countedIf (stallQuery rules hashes candidate mikId && (tracker.lastWinHeight.find mikId).isSome)
            candidate.height)
          mined enforced
        simp only [Bool.false_eq_true, if_false]
        rw [verdict, state, isInCooldown_countedIf, countedIf_countedIf]
        simp [enforced, legacy]
  · have gated : (decide (rules.dfmpCooldownConsensusHeight ≤ candidate.height) &&
      decide (candidate.height ≠ 0)) = false := by
      simpa using enforced
    simp only [gated, Bool.false_and, Bool.false_eq_true, false_implies, iff_true, Bool.false_or]
    split
    case isTrue decays =>
      rw [checkVDFCooldown_of_gated enforced]
      simp [decays, countedIf]
    case isFalse legacy =>
      rw [stallState, checkVDFCooldown_of_gated enforced]
      simp [legacy]

section

variable (rules) (tracker)

lemma checkConsecutiveMiner_spec (mined : MinedBy hashes candidate mikId) :
    ((checkConsecutiveMiner rules hashes candidate tracker).1 = none ↔ ¬ (FourthInRow rules hashes candidate mikId ∧
        (1 < (tracker.countedIf (tracker.lastWinHeight.find mikId).isSome candidate.height).getActiveMiners ∨
          rules.soloExemptionLifetimeGateHeight ≤ candidate.height ∧
          bootstrapMinerThreshold < tracker.getLifetimeMinerCount))) ∧
    (checkConsecutiveMiner rules hashes candidate tracker).2 =
      tracker.countedIf (decide (rules.consecutiveMinerCheckHeight ≤ candidate.height) &&
        (tracker.lastWinHeight.find mikId).isSome)
        candidate.height := by
  unfold checkConsecutiveMiner FourthInRow
  by_cases gated : candidate.height < rules.consecutiveMinerCheckHeight
  · rw [if_pos gated]
    simp [not_le.mpr gated, countedIf]
  · rw [if_neg gated, mined.isVDF, if_neg (by decide), mined.isMiner]
    dsimp only
    rw [isInCooldown_eq]
    dsimp only
    rw [reads_countedIf tracker getLifetimeMinerCount fun _ => rfl]
    have active := not_lt.mp gated
    split
    case isTrue sole =>
      refine ⟨iff_of_true rfl ?_, by simp [active]⟩
      rintro ⟨-, many | ⟨gate, grown⟩⟩
      · exact absurd many (not_lt.mpr sole.1)
      · exact sole.2.elim (fun early => absurd gate (not_le.mpr early)) fun small => absurd grown (not_lt.mpr small)
    case isFalse shared =>
      have several : 1 < (tracker.countedIf
          (tracker.lastWinHeight.find mikId).isSome candidate.height).getActiveMiners ∨
          rules.soloExemptionLifetimeGateHeight ≤ candidate.height ∧
          bootstrapMinerThreshold < tracker.getLifetimeMinerCount := by
        by_contra neither
        simp only [not_or, not_and, not_lt] at neither
        exact shared ⟨neither.1, (lt_or_ge candidate.height _).imp_right neither.2⟩
      split
      case isTrue row =>
        cases exempt : stallExempt rules candidate with
        | true => exact ⟨by simp, by simp [active]⟩
        | false => exact ⟨by simp [active, row, several], by simp [active]⟩
      case isFalse short => exact ⟨by simp [short], by simp [active]⟩

lemma checkMIKWindowCap_spec (nonneg : 0 ≤ candidate.height) (mined : MinedBy hashes candidate mikId) :
    checkMIKWindowCap rules hashes candidate.block candidate.height tracker candidate.prevTime candidate.time = none ↔
      ¬ (OverCap rules candidate tracker mikId ∧ 1 < tracker.getActiveMiners) := by
  unfold checkMIKWindowCap OverCap
  by_cases configured : rules.mikWindowCapWindow ≤ 0 ∨ rules.mikWindowCapFloor ≤ 0
  · rw [if_pos configured]
    refine iff_of_true rfl ?_
    omega
  · rw [if_neg configured, mined.isVDF, if_neg (by decide)]
    by_cases genesis : candidate.height = 0
    · simp [genesis]
    · have above : 0 < candidate.height := by omega
      have positive : 0 < rules.mikWindowCapWindow ∧ 0 < rules.mikWindowCapFloor := by omega
      rw [if_neg genesis]
      by_cases sole : tracker.getActiveMiners ≤ 1
      · simp [not_lt.mpr sole]
      · rw [if_neg sole]
        have blockTime (live : 0 < rules.livenessTimeoutSec ∧ 0 < candidate.prevTime ∧
            rules.livenessTimeoutSec ≤ candidate.time - candidate.prevTime) : 0 < candidate.time := by omega
        split
        case isTrue stalled =>
          refine iff_of_true rfl ?_
          rintro ⟨⟨-, live, -⟩, -⟩
          exact live ⟨stalled.1, stalled.2.1, stalled.2.2.2⟩
        case isFalse running =>
          have live : ¬ (0 < rules.livenessTimeoutSec ∧ 0 < candidate.prevTime ∧
              rules.livenessTimeoutSec ≤ candidate.time - candidate.prevTime) :=
            fun stalled => running ⟨stalled.1, stalled.2.1, blockTime stalled, stalled.2.2⟩
          rw [mined.isMiner]
          dsimp only
          split
          case isTrue full => simp [positive, above, live, full, not_le.mp sole]
          case isFalse room => simp [room]

end

lemma preflight_spec (rules : VDFRules) (tracker : CCooldownTracker) (nonneg : 0 ≤ candidate.height)
    (mined : MinedBy hashes candidate mikId) :
    (checkVDFReplacementPreflight rules hashes candidate candidate.height tracker).2 =
      tracker.countedIf (preflightQuery rules candidate tracker mikId) candidate.height ∧
    ((checkVDFReplacementPreflight rules hashes candidate candidate.height tracker).1 = none →
      (rules.dfmpCooldownConsensusHeight ≤ candidate.height →
        (tracker.isInCooldownExcludingHeight mikId candidate.height candidate.time candidate.height).1 = false) ∧
      (FourthInRow rules hashes candidate mikId ∨ OverCap rules candidate tracker mikId →
        tracker.getActiveMinersExcludingHeight candidate.height candidate.height ≤ 1)) := by
  have left : (if rules.dfmpCooldownConsensusHeight ≤ candidate.height then
        tracker.isInCooldownExcludingHeight mikId candidate.height candidate.time candidate.height
      else (false, tracker)).2 =
      tracker.countedIf (preflightQuery rules candidate tracker mikId) candidate.height := by
    unfold preflightQuery
    split
    case isFalse gated => simp [gated, countedIf]
    case isTrue enforced =>
      cases won : tracker.heightToWinner.find candidate.height with
      | none =>
        rw [isInCooldownExcludingHeight_of_absent won, isInCooldown_eq]
        simp [enforced]
      | some winner =>
        rw [isInCooldownExcludingHeight_of_window nonneg won nonneg]
        simp [countedIf]
  unfold checkVDFReplacementPreflight
  rw [mined.isVDF, if_neg (by decide), mined.isMiner]
  dsimp only
  rw [left, reads_countedIf tracker (·.getActiveMinersExcludingHeight candidate.height candidate.height) fun _ => rfl,
    reads_countedIf tracker (·.getBlockCountInWindow mikId (candidate.height - 1) rules.mikWindowCapWindow) fun _ =>
      rfl]
  generalize answer : (if rules.dfmpCooldownConsensusHeight ≤ candidate.height then
    tracker.isInCooldownExcludingHeight mikId candidate.height candidate.time candidate.height
    else (false, tracker)).1 = cooling
  cases cooling with
  | true => exact ⟨rfl, nofun⟩
  | false =>
    have cooled : rules.dfmpCooldownConsensusHeight ≤ candidate.height →
        (tracker.isInCooldownExcludingHeight mikId candidate.height candidate.time candidate.height).1 = false := by
      intro enforced
      rwa [if_pos enforced] at answer
    rw [if_neg (by decide)]
    split
    case isTrue => exact ⟨rfl, nofun⟩
    case isFalse noRow =>
      split
      case isTrue => exact ⟨rfl, nofun⟩
      case isFalse noCap =>
        refine ⟨rfl, fun _ => ⟨cooled, ?_⟩⟩
        rintro (⟨active, row, running⟩ | ⟨configured, live, full⟩)
        · exact not_lt.mp fun many => noRow ⟨active, many, row, by simp [running]⟩
        · exact not_lt.mp fun many => noCap ⟨configured, many, live, full⟩

/-- The number of active miners is more than one in the cache and not counted again. -/
def StaleMiners (after : CCooldownTracker) (height : Int) (recounted : Bool) : Prop :=
  (after.cachedAtHeight = height ∨ recounted = false) ∧ 1 < after.cachedActiveMiners

/-- How a block that the preflight lets through fails: the tracker before the preflight and after the disconnect. -/
inductive Drifts (rules : VDFRules) (hashes : HashFunctions) (candidate : Candidate) (mikId : Address)
    (before after : CCooldownTracker) : Prop where
  /-- The tip is not in the window, so the preflight used the cached cooldown; the disconnect has dropped it. -/
  | cooldown {lastWin : Int} (applies : cooldownApplies rules hashes candidate after = true)
      (evicted : before.OnlyInLifetime candidate.height) (known : after.lastWinHeight.find mikId = some lastWin)
      (cooling : stillCooling after.params candidate.height candidate.time
        (effectiveCooldownOf after.params after.heightToWinner candidate.height) lastWin
        (after.lastWinTimestamp.find mikId) = true)
  /-- There is one active miner, but the chain has seen too many for its exemption. -/
  | soleMiner (row : FourthInRow rules hashes candidate mikId)
      (gate : rules.soloExemptionLifetimeGateHeight ≤ candidate.height)
      (lifetime : bootstrapMinerThreshold < after.getLifetimeMinerCount)
  | staleConsecutive (row : FourthInRow rules hashes candidate mikId) (stale : StaleMiners after candidate.height
        (cooldownApplies rules hashes candidate after || (after.lastWinHeight.find mikId).isSome))
  | staleCap (full : OverCap rules candidate after mikId)
      (stale : StaleMiners after candidate.height (cooldownApplies rules hashes candidate after ||
        (after.lastWinHeight.find mikId).isSome && (decide (rules.consecutiveMinerCheckHeight ≤ candidate.height) ||
          !decide (rules.timeDecayCooldownActivationHeight ≤ candidate.height) &&
            stallQuery rules hashes candidate mikId)))

/-- With one miner left after the disconnect, more than one is reported only from the cache. -/
lemma reported_iff {after : CCooldownTracker} {height : Int}
    (sole : uniqueMiners after.heightToWinner after.params.activeWindow height ≤ 1) (recounted : Bool) :
    1 < (after.countedIf recounted height).getActiveMiners ↔ StaleMiners after height recounted := by
  rw [getActiveMiners_countedIf]
  split
  case isTrue counted =>
    refine iff_of_false (not_lt.mpr sole) ?_
    rintro ⟨cached | unasked, -⟩
    · exact counted.2 cached
    · rw [unasked] at counted
      cases counted.1
  case isFalse uncounted =>
    refine ⟨fun many => ⟨?_, many⟩, And.right⟩
    by_cases cached : after.cachedAtHeight = height
    · exact .inl cached
    · exact .inr (by simpa [cached] using uncounted)

variable {before after : CCooldownTracker}

/-- The disconnect changes nothing below the height that the cap looks at. -/
lemma overCap_iff (winners : after.heightToWinner = before.heightToWinner.erase candidate.height) :
    OverCap rules candidate after mikId ↔ OverCap rules candidate before mikId := by
  have count : after.getBlockCountInWindow mikId (candidate.height - 1) rules.mikWindowCapWindow =
      before.getBlockCountInWindow mikId (candidate.height - 1) rules.mikWindowCapWindow := by
    unfold getBlockCountInWindow
    rw [winners, range_erase_of_lt (by omega)]
  unfold OverCap
  rw [count]

/-- The cooldown rule of the connect path, after a preflight that was passed. -/
lemma connectCooldown_iff (mined : MinedBy hashes candidate mikId) (nonneg : 0 ≤ candidate.height)
    (isAfter : after = (before.countedIf
      (preflightQuery rules candidate before mikId) candidate.height).onBlockDisconnected candidate.height)
    (cooled : rules.dfmpCooldownConsensusHeight ≤ candidate.height →
      (before.isInCooldownExcludingHeight mikId candidate.height candidate.time candidate.height).1 = false) :
    (connectCooldown rules hashes candidate after).1 = none ↔
      ¬ (cooldownApplies rules hashes candidate after = true ∧ before.OnlyInLifetime candidate.height ∧
        ∃ lastWin, after.lastWinHeight.find mikId = some lastWin ∧
          stillCooling after.params candidate.height candidate.time
            (effectiveCooldownOf after.params after.heightToWinner candidate.height) lastWin
            (after.lastWinTimestamp.find mikId) = true) := by
  rw [(connectCooldown_spec rules after mined).1, not_and]
  refine imp_congr_right fun applies => ?_
  have enforced : rules.dfmpCooldownConsensusHeight ≤ candidate.height := by
    simp only [cooldownApplies, Bool.and_eq_true, decide_eq_true_eq] at applies
    exact applies.1.1
  have calm := cooled enforced
  have heights := before.reads_countedIf mikHeights (fun _ => rfl)
    (preflightQuery rules candidate before mikId) candidate.height
  cases won : before.heightToWinner.find candidate.height with
  | some winner =>
    have unasked : before.countedIf (preflightQuery rules candidate before mikId) candidate.height = before := by
      simp [preflightQuery, won, countedIf]
    rw [unasked] at isAfter
    rw [isInCooldownExcludingHeight_of_window nonneg won nonneg, ← isAfter] at calm
    refine iff_of_true calm ?_
    rintro ⟨⟨absent, -⟩, -⟩
    rw [won] at absent
    cases absent
  | none =>
    rw [isInCooldownExcludingHeight_of_absent won] at calm
    by_cases recorded : (before.mikHeights.entries.any fun entry => entry.2.contains candidate.height) = true
    · have caches := caches_onBlockDisconnected (.inr (heights ▸ recorded))
      rw [← isAfter] at caches
      rw [isInCooldown_eq, effective_eq_of_uncached (by omega) (by omega)]
      have evicted : before.OnlyInLifetime candidate.height := ⟨won, recorded⟩
      cases known : after.lastWinHeight.find mikId with
      | none => simp
      | some lastWin => simp [evicted]
    · have winners := before.reads_countedIf heightToWinner (fun _ => rfl)
        (preflightQuery rules candidate before mikId) candidate.height
      rw [onBlockDisconnected_of_unknown (winners ▸ won) (heights ▸ recorded)] at isAfter
      rw [isAfter, isInCooldown_countedIf]
      refine iff_of_true calm ?_
      rintro ⟨⟨-, inside⟩, -⟩
      exact recorded inside

lemma connectChecks_iff : connectChecks rules hashes candidate tracker = none ↔
    (connectCooldown rules hashes candidate tracker).1 = none ∧
    (checkConsecutiveMiner rules hashes candidate (connectCooldown rules hashes candidate tracker).2).1 = none ∧
    checkMIKWindowCap rules hashes candidate.block candidate.height
      (checkConsecutiveMiner rules hashes candidate (connectCooldown rules hashes candidate tracker).2).2
      candidate.prevTime candidate.time = none := by
  unfold connectChecks
  obtain ⟨verdict, asked⟩ := connectCooldown rules hashes candidate tracker
  cases verdict with
  | some error => simp
  | none =>
    dsimp only
    obtain ⟨verdict, left⟩ := checkConsecutiveMiner rules hashes candidate asked
    cases verdict with
    | some error => simp
    | none => simp

lemma overCap_countedIf (asked : Bool) :
    OverCap rules candidate (tracker.countedIf asked candidate.height) mikId ↔ OverCap rules candidate tracker mikId :=
  iff_of_eq (tracker.reads_countedIf (OverCap rules candidate · mikId) (fun _ => rfl) asked candidate.height)

lemma connectChecks_spec (rules : VDFRules) (tracker : CCooldownTracker) (nonneg : 0 ≤ candidate.height)
    (mined : MinedBy hashes candidate mikId) :
    connectChecks rules hashes candidate tracker = none ↔ (connectCooldown rules hashes candidate tracker).1 = none ∧
      ¬ (FourthInRow rules hashes candidate mikId ∧
        (1 < (tracker.countedIf (cooldownApplies rules hashes candidate tracker ||
          (tracker.lastWinHeight.find mikId).isSome)
            candidate.height).getActiveMiners ∨
          rules.soloExemptionLifetimeGateHeight ≤ candidate.height ∧
          bootstrapMinerThreshold < tracker.getLifetimeMinerCount)) ∧
      ¬ (OverCap rules candidate tracker mikId ∧
        1 < (tracker.countedIf (cooldownApplies rules hashes candidate tracker ||
          (tracker.lastWinHeight.find mikId).isSome && (decide (rules.consecutiveMinerCheckHeight ≤ candidate.height) ||
            !decide (rules.timeDecayCooldownActivationHeight ≤ candidate.height) &&
              stallQuery rules hashes candidate mikId))
          candidate.height).getActiveMiners) := by
  obtain ⟨-, asked⟩ := connectCooldown_spec rules tracker mined
  obtain ⟨verdict, left⟩ := checkConsecutiveMiner_spec rules (connectCooldown rules hashes candidate tracker).2 mined
  rw [connectChecks_iff, verdict, checkMIKWindowCap_spec rules _ nonneg mined, left, asked,
    reads_countedIf tracker getLifetimeMinerCount fun _ => rfl, reads_countedIf tracker lastWinHeight fun _ => rfl,
    countedIf_countedIf, countedIf_countedIf, overCap_countedIf]
  -- the queries of the stall rule are those of the consecutive rule, if both are made
  have first : ∀ applies legacy known : Bool, (applies || (legacy && known) || known) = (applies || known) := by decide
  have second : ∀ applies legacy known checked : Bool,
      (applies || (legacy && known) || checked && known) = (applies || known && (checked || legacy)) := by decide
  rw [first, second]

/-- A block that has passed the preflight is accepted after the disconnect of the tip just if nothing has drifted. -/
theorem replacement_accepted_iff (isVDF : candidate.block.toCBlockHeader.isVDFBlock = true)
    (nonneg : 0 ≤ candidate.height)
    (isMiner : extractCoinbaseMIKIdentity hashes candidate.block = some mikId)
    (accepted : (checkVDFReplacementPreflight rules hashes candidate candidate.height tracker).1 = none) :
    connectChecks rules hashes candidate
        ((checkVDFReplacementPreflight rules hashes candidate candidate.height tracker).2.onBlockDisconnected
          candidate.height) = none ↔
      ¬ Drifts rules hashes candidate mikId tracker
        ((checkVDFReplacementPreflight rules hashes candidate candidate.height tracker).2.onBlockDisconnected
          candidate.height) := by
  obtain ⟨left, passed⟩ := preflight_spec rules tracker nonneg ⟨isVDF, isMiner⟩
  obtain ⟨cooled, alone⟩ := passed accepted
  rw [left]
  generalize isAfter : (tracker.countedIf
    (preflightQuery rules candidate tracker mikId) candidate.height).onBlockDisconnected
    candidate.height = after
  have winners : after.heightToWinner = tracker.heightToWinner.erase candidate.height := by
    rw [← isAfter, heightToWinner_onBlockDisconnected, reads_countedIf tracker heightToWinner fun _ => rfl]
  have params : after.params = tracker.params := by
    rw [← isAfter, onBlockDisconnected_params, reads_countedIf tracker params fun _ => rfl]
  have sole (refused : FourthInRow rules hashes candidate mikId ∨ OverCap rules candidate after mikId) :
      uniqueMiners after.heightToWinner after.params.activeWindow candidate.height ≤ 1 := by
    have few := alone (refused.imp_right (overCap_iff winners).mp)
    rw [tracker.getActiveMinersExcludingHeight_eq nonneg, heightToWinner_onBlockDisconnected,
      onBlockDisconnected_params] at few
    rwa [winners, params]
  rw [connectChecks_spec rules after nonneg ⟨isVDF, isMiner⟩,
    connectCooldown_iff ⟨isVDF, isMiner⟩ nonneg isAfter.symm cooled]
  constructor
  · rintro ⟨cools, row, cap⟩ drift
    cases drift with
    | cooldown applies evicted known cooling => exact cools ⟨applies, evicted, _, known, cooling⟩
    | soleMiner fourth gate lifetime => exact row ⟨fourth, .inr ⟨gate, lifetime⟩⟩
    | staleConsecutive fourth stale => exact row ⟨fourth, .inl ((reported_iff (sole (.inl fourth)) _).mpr stale)⟩
    | staleCap full stale => exact cap ⟨full, (reported_iff (sole (.inr full)) _).mpr stale⟩
  · intro stays
    refine ⟨?_, ?_, ?_⟩
    · rintro ⟨applies, evicted, lastWin, known, cooling⟩
      exact stays (.cooldown applies evicted known cooling)
    · rintro ⟨fourth, many | ⟨gate, lifetime⟩⟩
      · exact stays (.staleConsecutive fourth ((reported_iff (sole (.inl fourth)) _).mp many))
      · exact stays (.soleMiner fourth gate lifetime)
    · rintro ⟨full, many⟩
      exact stays (.staleCap full ((reported_iff (sole (.inr full)) _).mp many))

end

def dilvRules : VDFRules where
  dfmpCooldownConsensusHeight := 0
  consecutiveMinerCheckHeight := 0
  soloExemptionLifetimeGateHeight := 44233
  consecutiveMinerStallExemptionRetiredHeight := 44233
  mikWindowCapWindow := 480
  mikWindowCapFloor := 24
  livenessTimeoutSec := 300
  timeDecayCooldownActivationHeight := 44250
  stabilizationForkHeight := 0
  stallExemptionV2Height := 0

def fourthBlock : Candidate where
  block := vdfBlock 7 1777000360
  height := 44300
  ancestors := [⟨1777000240, some (vdfBlock 7 1777000240)⟩, ⟨1777000120, some (vdfBlock 7 1777000120)⟩,
    ⟨1777000000, some (vdfBlock 7 1777000000)⟩]

/-- The tracker when another miner has the tip, after these miners of old blocks. -/
def trackerAt (old : List UInt8) : CCooldownTracker :=
  let early : CCooldownTracker :=
    old.foldl (fun tracker payee => tracker.onBlockConnected payee.toNat (payeeAddress payee) 1775000000)
    { params := dilvCooldown }
  (((early.onBlockConnected 44297 (payeeAddress 7) 1777000000).onBlockConnected 44298 (payeeAddress 7)
    1777000120).onBlockConnected 44299 (payeeAddress 7) 1777000240).onBlockConnected 44300 (payeeAddress 8)
    1777000330

theorem replacement_accepted_young_chain :
    (checkVDFReplacementPreflight dilvRules (.ofTable []) fourthBlock 44300 (trackerAt [1])).1 = none ∧
    (connectChecks dilvRules (.ofTable []) fourthBlock
        ((checkVDFReplacementPreflight dilvRules (.ofTable []) fourthBlock 44300 (trackerAt [1])).2.onBlockDisconnected
          44300) = none ↔
      ¬ Drifts dilvRules (.ofTable []) fourthBlock (TrackedChain.payeeAddress 7) (trackerAt [1])
        ((checkVDFReplacementPreflight dilvRules (.ofTable []) fourthBlock 44300 (trackerAt [1])).2.onBlockDisconnected
          44300)) := by
  have accepted : (checkVDFReplacementPreflight dilvRules (.ofTable []) fourthBlock 44300
      (trackerAt [1])).1 = none := by
    decide
  exact ⟨accepted, replacement_accepted_iff rfl (by decide) (by decide) accepted⟩

/-- On a chain that six miners have seen, the tip is given up for a block that is then refused. -/
theorem replacement_refused_after_disconnect :
    (checkVDFReplacementPreflight dilvRules (.ofTable []) fourthBlock 44300 (trackerAt [1, 2, 3, 4, 5])).1 = none ∧
    connectChecks dilvRules (.ofTable []) fourthBlock
        ((checkVDFReplacementPreflight dilvRules (.ofTable []) fourthBlock 44300
          (trackerAt [1, 2, 3, 4, 5])).2.onBlockDisconnected 44300) =
      some "CheckConsecutiveMiner: MIK 07070707... has mined 4 consecutive blocks (max 3, active miners: 1)" := by
  refine ⟨?_, ?_⟩ <;> decide

end Dilithion
