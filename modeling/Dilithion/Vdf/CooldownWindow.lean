import Dilithion.Vdf.CooldownTracker

/-! One win in the tracker: recorded, evicted and withdrawn again, with the maps that must agree about it. -/

namespace Dilithion.CCooldownTracker

open Lib SortedMap CCooldownTracker List

variable {tracker : CCooldownTracker} {height cutoff blockTimestamp : Int} {winner : Address}

structure SameLifetime (before after : CCooldownTracker) : Prop where
  params : after.params = before.params
  registrations : after.heightToRegistration = before.heightToRegistration
  lifetime : after.lifetimeBlockCount = before.lifetimeBlockCount
  heights : after.mikHeights = before.mikHeights
  cached : after.cachedActiveMiners = before.cachedActiveMiners
  cachedAt : after.cachedAtHeight = before.cachedAtHeight

lemma SameLifetime.refl (tracker : CCooldownTracker) : SameLifetime tracker tracker := ⟨rfl, rfl, rfl, rfl, rfl, rfl⟩

variable {first second third : CCooldownTracker}

lemma SameLifetime.trans (one : SameLifetime first second) (two : SameLifetime second third) :
    SameLifetime first third :=
  ⟨two.params.trans one.params, two.registrations.trans one.registrations, two.lifetime.trans one.lifetime,
    two.heights.trans one.heights, two.cached.trans one.cached, two.cachedAt.trans one.cachedAt⟩

lemma sameLifetime_evict (tracker : CCooldownTracker) (entry : Int × Address) :
    SameLifetime tracker (evict cutoff tracker entry) := by
  unfold evict
  split
  · exact .refl tracker
  · split <;> exact ⟨rfl, rfl, rfl, rfl, rfl, rfl⟩

lemma sameLifetime_evictAll (cutoff : Int) (tracker : CCooldownTracker) (entries : List (Int × Address)) :
    SameLifetime tracker (entries.foldl (evict cutoff) tracker) := by
  induction entries generalizing tracker with
  | nil => exact .refl tracker
  | cons entry rest ih => exact (sameLifetime_evict tracker entry).trans (ih _)

structure Leaves (before after : CCooldownTracker) (gone : Int → Address → Prop) : Prop where
  winners : ∀ item, item ∈ after.heightToWinner ↔ item ∈ before.heightToWinner ∧ ¬ ∃ address, gone item.1 address
  timestamps : ∀ item, item ∈ after.heightToTimestamp ↔ item ∈ before.heightToTimestamp ∧
    ¬ ∃ address, gone item.1 address
  lastWin : ∀ item, item ∈ after.lastWinHeight ↔ item ∈ before.lastWinHeight ∧ ¬ gone item.2 item.1
  lastTime : ∀ item, item ∈ after.lastWinTimestamp ↔
    item ∈ before.lastWinTimestamp ∧ ¬ ∃ height, gone height item.1 ∧ (item.1, height) ∈ before.lastWinHeight

lemma leaves_nothing (tracker : CCooldownTracker) : Leaves tracker tracker fun _ _ => False := by
  constructor <;> simp

lemma Leaves.trans {gone goneLater : Int → Address → Prop} (one : Leaves first second gone)
    (two : Leaves second third goneLater) : Leaves first third fun height address =>
      gone height address ∨ goneLater height address where
  winners item := by
    rw [two.winners, one.winners, exists_or]
    tauto
  timestamps item := by
    rw [two.timestamps, one.timestamps, exists_or]
    tauto
  lastWin item := by
    rw [two.lastWin, one.lastWin]
    tauto
  lastTime item := by
    rw [two.lastTime, one.lastTime]
    constructor
    · rintro ⟨⟨inside, notNow⟩, notLater⟩
      refine ⟨inside, ?_⟩
      rintro ⟨height, goes | goes, isLast⟩
      · exact notNow ⟨height, goes, isLast⟩
      · by_cases early : gone height item.1
        · exact notNow ⟨height, early, isLast⟩
        · exact notLater ⟨height, goes, (one.lastWin _).mpr ⟨isLast, early⟩⟩
    · rintro ⟨inside, stays⟩
      refine ⟨⟨inside, fun ⟨height, goes, isLast⟩ => stays ⟨height, .inl goes, isLast⟩⟩, ?_⟩
      rintro ⟨height, goes, isLast⟩
      exact stays ⟨height, .inr goes, ((one.lastWin _).mp isLast).1⟩

lemma Leaves.congr {before after : CCooldownTracker} {gone gone' : Int → Address → Prop}
    (leaves : Leaves before after gone)
    (same : ∀ height address, gone height address ↔ gone' height address) : Leaves before after gone' := by
  have equal : gone = gone' := funext fun height => funext fun address => propext (same height address)
  exact equal ▸ leaves

lemma mem_erase_outside {V : Type} {map : SortedMap Int V} {address : Address}
    (below : height < cutoff) (item : Int × V) :
    item ∈ map.erase height ↔ item ∈ map ∧ ¬ ∃ someone, (height, address) = (item.1, someone) ∧ item.1 < cutoff := by
  rw [mem_erase]
  constructor
  · rintro ⟨other, inside⟩
    refine ⟨inside, ?_⟩
    rintro ⟨someone, same, -⟩
    exact other (Prod.mk.inj same).1.symm
  · rintro ⟨inside, stays⟩
    exact ⟨fun same => stays ⟨address, by rw [same], same ▸ below⟩, inside⟩

lemma leaves_evict (tracker : CCooldownTracker) (entry : Int × Address) :
    Leaves tracker (evict cutoff tracker entry) fun height address => entry = (height, address) ∧ height < cutoff := by
  obtain ⟨height, address⟩ := entry
  unfold evict
  split
  case isTrue inside =>
    refine (leaves_nothing tracker).congr fun other winner => ⟨False.elim, ?_⟩
    rintro ⟨same, below⟩
    cases same
    exact absurd inside (not_le.mpr below)
  case isFalse outside =>
    have below : height < cutoff := not_le.mp outside
    dsimp only
    split
    case isTrue isLast =>
      have held := find_eq_some_iff.mp isLast
      refine ⟨mem_erase_outside below, mem_erase_outside below, ?_, ?_⟩ <;>
        rintro ⟨key, value⟩ <;> simp only [mem_erase]
      · constructor
        · rintro ⟨other, inside⟩
          exact ⟨inside, fun ⟨same, _⟩ => other (Prod.mk.inj same).2.symm⟩
        · rintro ⟨inside, stays⟩
          refine ⟨fun same => stays ?_, inside⟩
          subst same
          have isHeight := eq_of_mem held inside
          exact ⟨by rw [isHeight], isHeight ▸ below⟩
      · constructor
        · rintro ⟨other, inside⟩
          refine ⟨inside, ?_⟩
          rintro ⟨height', ⟨same, -⟩, -⟩
          exact other (Prod.mk.inj same).2.symm
        · rintro ⟨inside, stays⟩
          refine ⟨fun same => stays ⟨height, ?_, ?_⟩, inside⟩
          · exact ⟨by rw [same], below⟩
          · exact same ▸ held
    case isFalse notLast =>
      have away : (address, height) ∉ tracker.lastWinHeight := fun held => notLast (find_eq_some_iff.mpr held)
      refine ⟨mem_erase_outside below, mem_erase_outside below, ?_, ?_⟩ <;> rintro ⟨key, value⟩
      · refine ⟨fun inside => ⟨inside, ?_⟩, And.left⟩
        rintro ⟨same, -⟩
        cases same
        exact away inside
      · refine ⟨fun inside => ⟨inside, ?_⟩, And.left⟩
        rintro ⟨height', ⟨same, -⟩, isLast⟩
        cases same
        exact away isLast

lemma leaves_evictAll (cutoff : Int) (tracker : CCooldownTracker) (entries : List (Int × Address)) :
    Leaves tracker (entries.foldl (evict cutoff) tracker) fun height address =>
      (height, address) ∈ entries ∧ height < cutoff := by
  induction entries generalizing tracker with
  | nil => exact (leaves_nothing tracker).congr (by simp)
  | cons entry rest ih =>
    refine ((leaves_evict tracker entry).trans (ih _)).congr fun height address => ?_
    rw [mem_cons, ← or_and_right]
    exact and_congr_left fun _ => or_congr_left eq_comm

def Newest (heightToWinner : SortedMap Int Address) (address : Address) (height : Int) : Prop :=
  (height, address) ∈ heightToWinner ∧ ∀ other, (other, address) ∈ heightToWinner → other ≤ height

/-- Every win in the window has its time, and the last wins are the newest ones with their times. -/
structure Coherent (tracker : CCooldownTracker) : Prop where
  nonneg : ∀ item ∈ tracker.heightToWinner, 0 ≤ item.1
  timed : ∀ height, (∃ timestamp, (height, timestamp) ∈ tracker.heightToTimestamp) ↔
    ∃ address, (height, address) ∈ tracker.heightToWinner
  lastWin : ∀ address height, (address, height) ∈ tracker.lastWinHeight ↔ Newest tracker.heightToWinner address height
  lastTime : ∀ address timestamp, (address, timestamp) ∈ tracker.lastWinTimestamp ↔
    ∃ height, (address, height) ∈ tracker.lastWinHeight ∧ (height, timestamp) ∈ tracker.heightToTimestamp

lemma coherent_new (params : CooldownParams) : Coherent { params } := by
  constructor <;> simp [Newest]

structure Trimmed (cutoff : Int) (before after : CCooldownTracker) : Prop where
  winners : ∀ item, item ∈ after.heightToWinner ↔ item ∈ before.heightToWinner ∧ cutoff ≤ item.1
  timestamps : ∀ item, item ∈ after.heightToTimestamp ↔ item ∈ before.heightToTimestamp ∧ cutoff ≤ item.1
  coherent : Coherent after

lemma Coherent.trimmed (coherent : Coherent tracker) (cutoff : Int) :
    Trimmed cutoff tracker (tracker.heightToWinner.entries.foldl (evict cutoff) tracker) := by
  have leaves := leaves_evictAll cutoff tracker tracker.heightToWinner.entries
  have winners : ∀ item, item ∈ (tracker.heightToWinner.entries.foldl (evict cutoff) tracker).heightToWinner ↔
      item ∈ tracker.heightToWinner ∧ cutoff ≤ item.1 := by
    rintro ⟨height, address⟩
    rw [leaves.winners]
    refine and_congr_right fun inside => ⟨fun stays => not_lt.mp fun below => stays ⟨address, inside, below⟩, ?_⟩
    rintro above ⟨someone, -, below⟩
    exact absurd above (not_le.mpr below)
  have timestamps : ∀ item, item ∈ (tracker.heightToWinner.entries.foldl (evict cutoff) tracker).heightToTimestamp ↔
      item ∈ tracker.heightToTimestamp ∧ cutoff ≤ item.1 := by
    rintro ⟨height, timestamp⟩
    rw [leaves.timestamps]
    refine and_congr_right fun inside => ⟨fun stays => not_lt.mp fun below => ?_, ?_⟩
    · obtain ⟨address, won⟩ := (coherent.timed height).mp ⟨timestamp, inside⟩
      exact stays ⟨address, won, below⟩
    · rintro above ⟨someone, -, below⟩
      exact absurd above (not_le.mpr below)
  have lastWin : ∀ address height, (address, height) ∈
      (tracker.heightToWinner.entries.foldl (evict cutoff) tracker).lastWinHeight ↔
      (address, height) ∈ tracker.lastWinHeight ∧ cutoff ≤ height := by
    intro address height
    rw [leaves.lastWin]
    refine and_congr_right fun inside => ?_
    have won := ((coherent.lastWin address height).mp inside).1
    exact ⟨fun stays => not_lt.mp fun below => stays ⟨won, below⟩, fun above gone => absurd above (not_le.mpr gone.2)⟩
  refine ⟨winners, timestamps, fun item inside => coherent.nonneg item ((winners item).mp inside).1, ?_, ?_, ?_⟩
  · intro height
    simp [winners, timestamps, coherent.timed]
  · intro address height
    rw [lastWin, coherent.lastWin]
    unfold Newest
    simp only [winners]
    constructor
    · rintro ⟨⟨won, newest⟩, above⟩
      exact ⟨⟨won, above⟩, fun other ⟨inside, _⟩ => newest other inside⟩
    · rintro ⟨⟨won, above⟩, newest⟩
      refine ⟨⟨won, fun other inside => ?_⟩, above⟩
      by_cases below : cutoff ≤ other
      · exact newest other ⟨inside, below⟩
      · omega
  · intro address timestamp
    rw [leaves.lastTime, coherent.lastTime]
    constructor
    · rintro ⟨⟨height, isLast, timed⟩, stays⟩
      have won := ((coherent.lastWin address height).mp isLast).1
      have above : cutoff ≤ height := not_lt.mp fun below => stays ⟨height, ⟨won, below⟩, isLast⟩
      exact ⟨height, (lastWin _ _).mpr ⟨isLast, above⟩, (timestamps _).mpr ⟨timed, above⟩⟩
    · rintro ⟨height, isLast, timed⟩
      obtain ⟨wasLast, above⟩ := (lastWin _ _).mp isLast
      refine ⟨⟨height, wasLast, ((timestamps _).mp timed).1⟩, ?_⟩
      rintro ⟨other, ⟨-, below⟩, otherLast⟩
      cases eq_of_mem wasLast otherLast
      exact absurd above (not_le.mpr below)

structure Fits (tracker : CCooldownTracker) (height : Int) (winner : Address) : Prop where
  nonneg : 0 ≤ height
  highest : ∀ item ∈ tracker.heightToWinner, item.1 ≤ height
  alone : ∀ address, (height, address) ∈ tracker.heightToWinner → address = winner

lemma Coherent.recordWin (coherent : Coherent tracker) (fits : tracker.Fits height winner)
    (positive : 0 < blockTimestamp) :
    Coherent (tracker.recordWin height winner blockTimestamp) := by
  unfold CCooldownTracker.recordWin
  rw [if_pos positive]
  refine ⟨?_, ?_, ?_, ?_⟩
  · intro item inside
    rcases mem_insert.mp inside with rfl | ⟨-, earlier⟩
    · exact fits.nonneg
    · exact coherent.nonneg item earlier
  · intro other
    simp only [mem_insert, Prod.mk.injEq]
    by_cases same : other = height
    · subst same
      exact ⟨fun _ => ⟨winner, .inl ⟨rfl, rfl⟩⟩, fun _ => ⟨blockTimestamp, .inl ⟨rfl, rfl⟩⟩⟩
    · simp [same, coherent.timed]
  · intro address other
    unfold Newest
    simp only [mem_insert, Prod.mk.injEq, coherent.lastWin]
    constructor
    · rintro (⟨rfl, rfl⟩ | ⟨different, won, newest⟩)
      · refine ⟨.inl ⟨rfl, rfl⟩, ?_⟩
        rintro earlier (⟨rfl, -⟩ | ⟨-, inside⟩)
        · exact le_refl _
        · exact fits.highest _ inside
      · refine ⟨.inr ⟨fun same => different (fits.alone address (same ▸ won)), won⟩, ?_⟩
        rintro earlier (⟨-, same⟩ | ⟨-, inside⟩)
        · exact absurd same different
        · exact newest earlier inside
    · rintro ⟨⟨rfl, rfl⟩ | ⟨notNow, won⟩, newest⟩
      · exact .inl ⟨rfl, rfl⟩
      · refine .inr ⟨?_, won, fun earlier inside => ?_⟩
        · rintro rfl
          have atMost := newest height (.inl ⟨rfl, rfl⟩)
          exact notNow (le_antisymm (fits.highest _ won) atMost)
        · by_cases same : earlier = height
          · have isWinner := fits.alone address (same ▸ inside)
            exact newest earlier (.inl ⟨same, isWinner⟩)
          · exact newest earlier (.inr ⟨same, inside⟩)
  · intro address timestamp
    simp only [mem_insert, Prod.mk.injEq, coherent.lastTime]
    constructor
    · rintro (⟨rfl, rfl⟩ | ⟨different, other, isLast, timed⟩)
      · exact ⟨height, .inl ⟨rfl, rfl⟩, .inl ⟨rfl, rfl⟩⟩
      · refine ⟨other, .inr ⟨different, isLast⟩, .inr ⟨?_, timed⟩⟩
        rintro rfl
        exact different (fits.alone address ((coherent.lastWin address other).mp isLast).1)
    · rintro ⟨other, ⟨rfl, rfl⟩ | ⟨different, isLast⟩, ⟨same, isTime⟩ | ⟨apart, timed⟩⟩
      · exact .inl ⟨rfl, isTime⟩
      · exact absurd rfl apart
      · exact absurd (fits.alone address (same ▸ ((coherent.lastWin address other).mp isLast).1)) different
      · exact .inr ⟨different, other, isLast, timed⟩

def uncached (tracker : CCooldownTracker) : CCooldownTracker :=
  { tracker with
    cachedActiveMiners := 0, cachedAtHeight := -1, cachedShortActiveMiners := 0, cachedShortAtHeight := -1 }

section

variable (tracker) (height)

@[simp] lemma uncached_recalcActiveMiners : (tracker.recalcActiveMiners height).uncached = tracker.uncached := by
  unfold recalcActiveMiners
  split <;> rfl

lemma cachedAtHeight_recalcActiveMiners : (tracker.recalcActiveMiners height).cachedAtHeight = height := by
  unfold recalcActiveMiners
  split
  · assumption
  · rfl

@[simp] lemma uncached_recalcShortActiveMiners :
    (tracker.recalcShortActiveMiners height).uncached = tracker.uncached := by
  unfold recalcShortActiveMiners
  split <;> rfl

@[simp] lemma uncached_computeEffectiveCooldown :
    (tracker.computeEffectiveCooldown height).2.uncached = tracker.uncached := by
  unfold computeEffectiveCooldown
  dsimp only
  split <;> simp

end

@[simp] lemma uncached_isInCooldown (tracker : CCooldownTracker) (addr : Address) (height currentTimestamp : Int) :
    (tracker.isInCooldown addr height currentTimestamp).2.uncached = tracker.uncached := by
  unfold isInCooldown
  split
  · rfl
  · exact uncached_computeEffectiveCooldown tracker height

lemma Coherent.of_uncached {other : CCooldownTracker} (coherent : Coherent tracker)
    (same : other.uncached = tracker.uncached) :
    Coherent other := by
  have again : Coherent tracker.uncached := ⟨coherent.nonneg, coherent.timed, coherent.lastWin, coherent.lastTime⟩
  rw [← same] at again
  exact ⟨again.nonneg, again.timed, again.lastWin, again.lastTime⟩

lemma uncached_onBlockConnected (tracker : CCooldownTracker) (height : Int) (winner : Address) (blockTimestamp : Int) :
    (tracker.onBlockConnected height winner blockTimestamp).uncached =
      ((tracker.recordWin height winner blockTimestamp).heightToWinner.entries.foldl
        (evict (height - tracker.params.activeWindow + 1)) (tracker.recordWin height winner blockTimestamp)).uncached :=
  uncached_recalcActiveMiners _ height

lemma Coherent.onBlockConnected (coherent : Coherent tracker) (fits : tracker.Fits height winner)
    (positive : 0 < blockTimestamp) :
    Trimmed (height - tracker.params.activeWindow + 1) (tracker.recordWin height winner blockTimestamp)
      (tracker.onBlockConnected height winner blockTimestamp) := by
  have trimmed := (coherent.recordWin fits positive).trimmed (height - tracker.params.activeWindow + 1)
  have same := uncached_onBlockConnected tracker height winner blockTimestamp
  have winners := congrArg heightToWinner same
  have timestamps := congrArg heightToTimestamp same
  refine ⟨fun item => ?_, fun item => ?_, trimmed.coherent.of_uncached same⟩
  · rw [← trimmed.winners]
    exact iff_of_eq (congrArg (item ∈ ·) winners)
  · rw [← trimmed.timestamps]
    exact iff_of_eq (congrArg (item ∈ ·) timestamps)

variable {heightToWinner : SortedMap Int Address}

lemma newestWin_eq (newest : Newest heightToWinner winner height) : newestWin heightToWinner winner = height := by
  obtain ⟨won, highest⟩ := newest
  unfold newestWin
  cases search : heightToWinner.entries.reverse.find? fun entry => decide (entry.2 = winner) with
  | none =>
    have absent := find?_eq_none.mp search (height, winner) (mem_reverse.mpr won)
    simp at absent
  | some entry =>
    -- nothing above the entry that is found is the miner's
    obtain ⟨isWinner, above, below, split, others⟩ := find?_eq_some_iff_append.mp search
    simp only [decide_eq_true_eq] at isWinner
    have inside : (entry.1, winner) ∈ heightToWinner := by
      rw [← isWinner]
      exact mem_reverse.mp (split ▸ mem_append_right _ mem_cons_self)
    have falling : heightToWinner.entries.reverse.Pairwise fun first second => second.1 < first.1 :=
      pairwise_reverse.mpr heightToWinner.sorted
    rw [split] at falling
    have isMember : (height, winner) ∈ above ++ entry :: below := split ▸ mem_reverse.mpr won
    refine le_antisymm (highest entry.1 inside) ?_
    rcases mem_append.mp isMember with early | late
    · have skipped := others (height, winner) early
      simp at skipped
    · rcases mem_cons.mp late with rfl | deeper
      · exact le_refl _
      · have lower := (pairwise_cons.mp (pairwise_append.mp falling).2.1).1 (height, winner) deeper
        exact le_of_lt lower

lemma newestWin_none (absent : ∀ height, (height, winner) ∉ heightToWinner) :
    newestWin heightToWinner winner = -1 := by
  unfold newestWin
  cases search : heightToWinner.entries.reverse.find? fun entry => decide (entry.2 = winner) with
  | none => rfl
  | some entry =>
    have isWinner := find?_some search
    simp only [decide_eq_true_eq] at isWinner
    have inside := mem_reverse.mp (mem_of_find?_eq_some search)
    exact absurd (isWinner ▸ inside) (absent entry.1)

lemma exists_newest (won : (height, winner) ∈ heightToWinner) : ∃ newest, Newest heightToWinner winner newest := by
  obtain ⟨entries, sorted⟩ := heightToWinner
  unfold Newest
  simp only [mem_def] at won ⊢
  clear sorted
  induction entries generalizing height with
  | nil => cases won
  | cons entry rest ih =>
    by_cases later : ∃ other, (other, winner) ∈ rest
    · obtain ⟨other, inside⟩ := later
      obtain ⟨newest, isIn, highest⟩ := ih inside
      by_cases first : entry.2 = winner ∧ newest < entry.1
      · refine ⟨entry.1, by rw [← first.1]; exact mem_cons_self, fun earlier member => ?_⟩
        rcases mem_cons.mp member with rfl | deeper
        · exact le_refl _
        · exact le_of_lt (lt_of_le_of_lt (highest earlier deeper) first.2)
      · refine ⟨newest, mem_cons_of_mem _ isIn, fun earlier member => ?_⟩
        rcases mem_cons.mp member with rfl | deeper
        · exact not_lt.mp fun above => first ⟨rfl, above⟩
        · exact highest earlier deeper
    · rcases mem_cons.mp won with rfl | deeper
      · refine ⟨height, mem_cons_self, fun earlier member => ?_⟩
        rcases mem_cons.mp member with same | deeper
        · exact le_of_eq (Prod.mk.inj same).1
        · exact absurd ⟨earlier, deeper⟩ later
      · exact absurd ⟨height, deeper⟩ later

lemma Coherent.restoreLastWin (nonneg : ∀ item ∈ tracker.heightToWinner, 0 ≤ item.1)
    (timed : ∀ height, (∃ timestamp, (height, timestamp) ∈ tracker.heightToTimestamp) ↔
      ∃ address, (height, address) ∈ tracker.heightToWinner)
    (lastWin : ∀ address height, address ≠ winner →
      ((address, height) ∈ tracker.lastWinHeight ↔ Newest tracker.heightToWinner address height))
    (lastTime : ∀ address timestamp, address ≠ winner → ((address, timestamp) ∈ tracker.lastWinTimestamp ↔
      ∃ height, (address, height) ∈ tracker.lastWinHeight ∧ (height, timestamp) ∈ tracker.heightToTimestamp)) :
    Coherent (tracker.restoreLastWin winner) := by
  unfold CCooldownTracker.restoreLastWin
  by_cases some : ∃ height, (height, winner) ∈ tracker.heightToWinner
  · obtain ⟨height, won⟩ := some
    obtain ⟨newest, isNewest⟩ := exists_newest won
    obtain ⟨timestamp, isTime⟩ := (timed newest).mpr ⟨winner, isNewest.1⟩
    have unique : ∀ other, Newest tracker.heightToWinner winner other ↔ other = newest :=
      fun other => ⟨fun also => le_antisymm (isNewest.2 other also.1) (also.2 newest isNewest.1),
        fun same => same ▸ isNewest⟩
    rw [newestWin_eq isNewest, if_pos (nonneg _ isNewest.1), find_eq_some_iff.mpr isTime]
    refine ⟨nonneg, timed, fun address other => ?_, fun address other => ?_⟩
    · rw [mem_insert]
      by_cases same : address = winner
      · subst same
        simp [unique]
      · simp [same, lastWin address other same]
    · simp only [mem_insert, Prod.mk.injEq]
      by_cases same : address = winner
      · subst same
        simp only [true_and, ne_eq, not_true_eq_false, false_and, or_false, exists_eq_left]
        exact ⟨fun equal => equal ▸ isTime, fun also => eq_of_mem also isTime⟩
      · simp [same, lastTime address other same]
  · have absent : ∀ height, (height, winner) ∉ tracker.heightToWinner := fun height won => some ⟨height, won⟩
    rw [newestWin_none absent, if_neg (by decide)]
    refine ⟨nonneg, timed, fun address other => ?_, fun address other => ?_⟩
    · rw [mem_erase]
      by_cases same : address = winner
      · subst same
        simp only [ne_eq, not_true_eq_false, false_and, false_iff]
        exact fun newest => absent other newest.1
      · simp [same, lastWin address other same]
    · simp only [mem_erase]
      by_cases same : address = winner
      · subst same
        simp
      · simp [same, lastTime address other same]

lemma Coherent.onBlockDisconnected (coherent : Coherent tracker) (won : (height, winner) ∈ tracker.heightToWinner) :
    Coherent (tracker.onBlockDisconnected height) := by
  unfold CCooldownTracker.onBlockDisconnected
  rw [find_eq_some_iff.mpr won]
  refine Coherent.of_uncached (Coherent.restoreLastWin ?_ ?_ ?_ ?_) rfl
  · exact fun item inside => coherent.nonneg item (mem_erase.mp inside).2
  · intro other
    show (∃ timestamp, (other, timestamp) ∈ tracker.heightToTimestamp.erase height) ↔
      ∃ address, (other, address) ∈ tracker.heightToWinner.erase height
    simp [mem_erase, coherent.timed]
  · intro address other different
    show (address, other) ∈ tracker.lastWinHeight ↔ Newest (tracker.heightToWinner.erase height) address other
    have untouched : ∀ earlier, (earlier, address) ∈ tracker.heightToWinner.erase height ↔
        (earlier, address) ∈ tracker.heightToWinner := by
      intro earlier
      rw [mem_erase]
      refine ⟨And.right, fun inside => ⟨?_, inside⟩⟩
      rintro rfl
      exact different (eq_of_mem inside won)
    rw [coherent.lastWin, Newest, Newest]
    simp only [untouched]
  · intro address timestamp different
    show (address, timestamp) ∈ tracker.lastWinTimestamp ↔
      ∃ other, (address, other) ∈ tracker.lastWinHeight ∧ (other, timestamp) ∈ tracker.heightToTimestamp.erase height
    rw [coherent.lastTime]
    refine exists_congr fun other => and_congr_right fun isLast => ?_
    rw [mem_erase]
    refine ⟨fun timed => ⟨?_, timed⟩, And.right⟩
    rintro rfl
    exact different (eq_of_mem ((coherent.lastWin address other).mp isLast).1 won)

end Dilithion.CCooldownTracker
