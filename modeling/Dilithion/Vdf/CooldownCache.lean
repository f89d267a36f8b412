import Dilithion.Vdf.ReplacementPreflight

/-! The two cached counts of active miners. A query is answered from them as it would be without, unless a count is
cached for a height before the block of that height is connected. -/

namespace Dilithion

open Lib

inductive TrackerCall where
  | onBlockConnected (height : Int) (winner : Address) (blockTimestamp : Int)
  | onBlockDisconnected (height : Int)
  | isInCooldown (addr : Address) (height currentTimestamp : Int)
  | getEffectiveCooldown (height : Int)
  | getActiveMiners

namespace CCooldownTracker

variable (tracker : CCooldownTracker)

def perform : TrackerCall → CCooldownTracker
  | .onBlockConnected height winner blockTimestamp => tracker.onBlockConnected height winner blockTimestamp
  | .onBlockDisconnected height => tracker.onBlockDisconnected height
  | .isInCooldown addr height currentTimestamp => (tracker.isInCooldown addr height currentTimestamp).2
  | .getEffectiveCooldown height => (tracker.getEffectiveCooldown height).2
  | .getActiveMiners => tracker

/-- The answer is the one computed from the winners. The active miners are those of the height last counted for. -/
def AnswersAfresh : TrackerCall → Prop
  | .isInCooldown addr height currentTimestamp => (tracker.isInCooldown addr height currentTimestamp).1 =
    (tracker.lastWinHeight.find addr).any fun lastWin => stillCooling tracker.params height currentTimestamp
      (effectiveCooldownOf tracker.params tracker.heightToWinner height) lastWin (tracker.lastWinTimestamp.find addr)
  | .getEffectiveCooldown height =>
    (tracker.getEffectiveCooldown height).1 = effectiveCooldownOf tracker.params tracker.heightToWinner height
  | .getActiveMiners =>
    tracker.getActiveMiners = uniqueMiners tracker.heightToWinner tracker.params.activeWindow tracker.cachedAtHeight
  | _ => True

/-- Nothing is cached for the height that is connected, and a count stands for a height. -/
def Timely : TrackerCall → Prop
  | .onBlockConnected height .. => tracker.cachedAtHeight ≠ height
  | .isInCooldown _ height _ | .getEffectiveCooldown height => 0 ≤ height
  | .getActiveMiners => 0 ≤ tracker.cachedAtHeight
  | .onBlockDisconnected _ => True

variable {tracker}

section

variable (cached : Cached (fun _ => False) tracker) {call : TrackerCall} (timely : tracker.Timely call)

include cached timely

lemma Cached.perform : Cached (fun _ => False) (tracker.perform call) := by
  cases call with
  | onBlockConnected height winner blockTimestamp =>
    have recorded : (tracker.recordWin height winner blockTimestamp).cachedAtHeight = tracker.cachedAtHeight := by
      unfold recordWin
      dsimp only
      split <;> rfl
    have evicted := (sameLifetime_evictAll (height - tracker.params.activeWindow + 1) _
      (tracker.recordWin height winner blockTimestamp).heightToWinner.entries).cachedAt.trans recorded
    unfold CCooldownTracker.perform CCooldownTracker.onBlockConnected CCooldownTracker.recalcActiveMiners
    dsimp only
    rw [if_neg (evicted ▸ timely)]
    exact .of_long rfl (.inl rfl)
  | onBlockDisconnected height =>
    by_cases found : tracker.heightToWinner.find height ≠ none ∨
        (tracker.mikHeights.entries.any fun entry => entry.2.contains height) = true
    · obtain ⟨long, short⟩ := caches_onBlockDisconnected found
      exact .of_empty long short
    · rw [not_or, not_not] at found
      change Cached _ (tracker.onBlockDisconnected height)
      rw [onBlockDisconnected_of_unknown found.1 found.2]
      exact cached
  | isInCooldown addr height currentTimestamp => exact cached.isInCooldown addr height currentTimestamp
  | getEffectiveCooldown height => exact cached.computeEffectiveCooldown height
  | getActiveMiners => exact cached

lemma Cached.answersAfresh : tracker.AnswersAfresh call := by
  cases call with
  | isInCooldown addr height currentTimestamp =>
    dsimp only [AnswersAfresh]
    rw [isInCooldown_eq, cached.effective_eq timely not_false]
  | getEffectiveCooldown height => exact cached.effective_eq timely not_false
  | getActiveMiners => exact (cached.long timely).resolve_right not_false
  | _ => trivial

end

/-- In a run whose connects find nothing cached for their height and whose queries are for a height, every answer is
the one without the caches. -/
theorem cached_answers_of_calls (params : CooldownParams) {calls : List TrackerCall}
    (steps : EachStep (fun earlier call => (earlier.foldl perform { params }).Timely call) calls) :
    EachStep (fun earlier call => (earlier.foldl perform { params }).AnswersAfresh call) calls := by
  rintro earlier call later rfl
  refine Cached.answersAfresh ?_ (steps earlier call later rfl)
  replace steps := steps.front
  induction earlier using List.reverseRecOn with
  | nil => exact .of_empty rfl rfl
  | append_singleton front call ih =>
    rw [List.foldl_append]
    exact (ih steps.front).perform steps.last

/-- The count of the first query is still there for the second. -/
theorem cached_answers_of_win :
    (oneWin.getEffectiveCooldown 6).2.cachedAtHeight = 6 ∧
    ((oneWin.getEffectiveCooldown 6).2.isInCooldown (TrackedChain.payeeAddress 7) 6 200).1 = true ∧
    EachStep (fun earlier call => (earlier.foldl perform {}).AnswersAfresh call)
      [.onBlockConnected 5 (TrackedChain.payeeAddress 7) 100, .getEffectiveCooldown 6,
        .isInCooldown (TrackedChain.payeeAddress 7) 6 200, .getActiveMiners] := by
  refine ⟨by decide, by decide, cached_answers_of_calls {} ?_⟩
  exact (((EachStep.nil.concat (by decide : (-1 : Int) ≠ 5)).concat (by decide : (0 : Int) ≤ 6)).concat
    (by decide : (0 : Int) ≤ 6)).concat (by decide : (0 : Int) ≤ 6)

/-- The cooldown is asked for at the height of the next block, as its check does, and then that block is connected. -/
theorem count_stale_after_connect :
    ¬ ((getEffectiveCooldown {} 5).2.onBlockConnected 5 (TrackedChain.payeeAddress 7) 100).AnswersAfresh
    .getActiveMiners :=
  (by decide : ¬ ((0 : Int) = 1))

end CCooldownTracker

/-! The window cap along a chain. The check looks back from one height; the tracker has not yet evicted what it
looks at, so the cap holds in every window. -/

open SortedMap CCooldownTracker TrackedChain List

/-- VDF blocks connected at successive heights, newest first, each after it has passed the cap. -/
inductive CappedChain (rules : VDFRules) (hashes : HashFunctions) : CCooldownTracker → Int → List (Int × Address) → Prop
  | start (tracker : CCooldownTracker) {height : Int} (nonneg : 0 ≤ height) : CappedChain rules hashes tracker height []
  | next {tracker : CCooldownTracker} {height : Int} {blocks : List (Int × Address)} {block : CBlock} {mikId : Address}
      {prevBlockTime blockTime : Int} (chain : CappedChain rules hashes tracker height blocks)
      (vdf : block.isVDFBlock = true) (mined : extractCoinbaseMIKIdentity hashes block = some mikId)
      (miners : 1 < tracker.getActiveMiners)
      (live : ¬ (0 < rules.livenessTimeoutSec ∧ 0 < prevBlockTime ∧ 0 < blockTime ∧
        rules.livenessTimeoutSec ≤ blockTime - prevBlockTime))
      (passes : checkMIKWindowCap rules hashes block height tracker prevBlockTime blockTime = none) :
      CappedChain rules hashes (tracker.onBlockConnected height mikId blockTime) (height + 1)
        ((height, mikId) :: blocks)

namespace CappedChain

variable {rules : VDFRules} {hashes : HashFunctions} {tracker : CCooldownTracker} {height : Int}
  {blocks : List (Int × Address)}

lemma recorded (chain : CappedChain rules hashes tracker height blocks) :
    0 ≤ height ∧ blocks.Pairwise (fun newer older => older.1 < newer.1) ∧
    ∀ item ∈ blocks, 0 ≤ item.1 ∧ item.1 < height ∧
      (height - tracker.params.activeWindow ≤ item.1 → item ∈ tracker.heightToWinner) := by
  induction chain with
  | start tracker nonneg => exact ⟨nonneg, .nil, by simp⟩
  | @next tracker height blocks _ mikId _ blockTime chain _ _ _ _ _ ih =>
    obtain ⟨nonneg, sorted, each⟩ := ih
    refine ⟨by omega, pairwise_cons.mpr ⟨fun item inside => (each item inside).2.1, sorted⟩, ?_⟩
    -- what is not older than the window is not evicted
    have stays : ∀ item ∈ tracker.heightToWinner.insert height mikId,
        height - tracker.params.activeWindow + 1 ≤ item.1 →
        item ∈ (tracker.onBlockConnected height mikId blockTime).heightToWinner := by
      intro item inside recent
      refine (congrArg (item ∈ ·.heightToWinner) (tracker.uncached_onBlockConnected height mikId blockTime)).mpr ?_
      refine ((leaves_evictAll _ _ _).winners item).mpr ⟨heightToWinner_recordWin ▸ inside, ?_⟩
      rintro ⟨_, -, old⟩
      omega
    rw [params_onBlockConnected]
    refine forall_mem_cons.mpr ⟨⟨nonneg, by omega, fun recent => stays _ (mem_insert.mpr (.inl rfl)) (by omega)⟩, ?_⟩
    intro item inside
    obtain ⟨low, high, held⟩ := each item inside
    refine ⟨low, by omega, fun recent => stays item (mem_insert.mpr (.inr ⟨by omega, held (by omega)⟩)) (by omega)⟩

def inWindow (low window : Int) (mikId : Address) (item : Int × Address) : Bool :=
  decide (low ≤ item.1 ∧ item.1 ≤ low + window ∧ item.2 = mikId)

lemma countP_le (chain : CappedChain rules hashes tracker height blocks) {window : Int}
    (fits : window ≤ tracker.params.activeWindow)
    (mikId : Address) : (blocks.countP (inWindow (height - window) window mikId) : Int) ≤
      tracker.getBlockCountInWindow mikId (height - 1) window := by
  obtain ⟨-, sorted, each⟩ := chain.recorded
  have apart : blocks.Nodup := sorted.imp fun less same => by simp [same] at less
  unfold getBlockCountInWindow
  rw [countP_eq_length_filter, countP_eq_length_filter, Int.ofNat_le]
  refine ((apart.filter _).subperm fun item inside => ?_).length_le
  simp only [inWindow, mem_filter, decide_eq_true_eq, range_eq_filter, Bool.and_eq_true] at inside ⊢
  obtain ⟨low, high, held⟩ := each item inside.1
  exact ⟨⟨held (by omega), by omega, by omega⟩, inside.2.2.2⟩

theorem window_cap_of_chain (enabled : 0 < rules.mikWindowCapFloor)
    (chain : CappedChain rules hashes tracker height blocks)
    (fits : rules.mikWindowCapWindow ≤ tracker.params.activeWindow) (mikId : Address) (low : Int) :
    (blocks.countP (inWindow low rules.mikWindowCapWindow mikId) : Int) ≤ rules.mikWindowCapFloor := by
  induction chain with
  | start => exact le_of_lt enabled
  | @next tracker height blocks block winner _ _ chain vdf mined miners live passes ih =>
    rw [params_onBlockConnected] at fits
    rw [countP_cons]
    split
    case isFalse => exact ih fits
    case isTrue counted =>
      obtain ⟨above, below, rfl⟩ : low ≤ height ∧ height ≤ low + rules.mikWindowCapWindow ∧ winner = mikId :=
        of_decide_eq_true counted
      have places := chain.recorded.2.2
      -- the new block is the newest of the window, so the check has counted the others
      have others : blocks.countP (inWindow low rules.mikWindowCapWindow winner) ≤
          blocks.countP (inWindow (height - rules.mikWindowCapWindow) rules.mikWindowCapWindow winner) := by
        refine countP_mono_left fun item inside held => ?_
        have place := places item inside
        obtain ⟨from_, -, his⟩ := of_decide_eq_true held
        exact decide_eq_true ⟨by omega, by omega, his⟩
      have seen := chain.countP_le fits winner
      by_cases exempt : rules.mikWindowCapWindow ≤ 0 ∨ height = 0
      · -- there is no other height in the window
        have alone : blocks.countP (inWindow low rules.mikWindowCapWindow winner) = 0 := by
          refine countP_eq_zero.mpr fun item inside held => ?_
          have place := places item inside
          have := of_decide_eq_true held
          omega
        omega
      · rw [not_or] at exempt
        simp only [checkMIKWindowCap, vdf, mined, live, if_false, Bool.not_true, exempt.2] at passes
        rw [if_neg (by omega), if_neg (by simp), if_neg (by omega)] at passes
        split at passes
        · cases passes
        · omega

def twoMiners : CCooldownTracker :=
  (onBlockConnected { params := { activeWindow := 500 } } 1 (payeeAddress 7) 100).onBlockConnected 2
    (payeeAddress 8) 200

lemma thirdBlock (rules : VDFRules) (live : 100 < rules.livenessTimeoutSec)
    (passes : checkMIKWindowCap rules (.ofTable []) (vdfBlock 7 300) 3 twoMiners 200 300 = none) :
    CappedChain rules (.ofTable []) (twoMiners.onBlockConnected 3 (payeeAddress 7) 300) 4 [(3, payeeAddress 7)] :=
  .next (.start twoMiners (by decide)) (by decide) (by decide) (by decide) (by omega) passes

def capOfTwo : VDFRules := { dilvRules with mikWindowCapFloor := 2 }

/-- A third miner fills the cap; their next block is refused. -/
theorem window_cap_reached :
    [(4, payeeAddress 9), (3, payeeAddress 9)].countP (inWindow 0 480 (payeeAddress 9)) ≤ (2 : Int) ∧
    checkMIKWindowCap capOfTwo (.ofTable []) (vdfBlock 9 500) 5
      ((twoMiners.onBlockConnected 3 (payeeAddress 9) 300).onBlockConnected 4 (payeeAddress 9) 400) 400 500 ≠ none := by
  have third : CappedChain capOfTwo (.ofTable []) (twoMiners.onBlockConnected 3 (payeeAddress 9) 300) 4
      [(3, payeeAddress 9)] :=
    .next (.start twoMiners (by decide)) (by decide) (by decide) (by decide) (by decide)
      (show checkMIKWindowCap capOfTwo (.ofTable []) (vdfBlock 9 300) 3 twoMiners 200 300 = none by decide)
  have mined : extractCoinbaseMIKIdentity (.ofTable []) (vdfBlock 9 400) = some (payeeAddress 9) := by decide
  have fourth := third.next (by decide) mined (by decide) (by decide)
    (show checkMIKWindowCap capOfTwo (.ofTable []) (vdfBlock 9 400) 4 _ 300 400 = none by decide)
  exact ⟨window_cap_of_chain (by decide) fourth (by decide) (payeeAddress 9) 0, by decide⟩

/-- With a cap of zero there is none. -/
theorem cap_of_zero_exceeded : ∃ tracker, CappedChain { dilvRules with mikWindowCapFloor := 0 } (.ofTable []) tracker 4
    [(3, payeeAddress 7)] ∧ ¬ [(3, payeeAddress 7)].countP (inWindow 0 480 (payeeAddress 7)) ≤ (0 : Int) :=
  ⟨_, thirdBlock _ (by decide) (by decide), by decide⟩

end CappedChain
end Dilithion
