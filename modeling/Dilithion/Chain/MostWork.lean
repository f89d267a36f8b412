import Dilithion.Chain.Marking

/-! Most-work selection over whole runs of adding, invalidating and reconsidering blocks. The candidate
set is recomputed from the leaves of the whole tree, and adding a block never extends it, so the search
answers right in every state reached as long as no step leaves an eligible block without an eligible
leaf below it or adds a block that should be selected at once. -/

namespace Dilithion.BlockTree

open Lib ParentTree CBlockIndex Option

variable {t : BlockTree}

variable {hash : Uint256} {pindex : CBlockIndex}

lemma unfailed_markBlockAsFailed_iff (planted : Planted t.mapBlockIndex) (start : Uint256)
    (found : t.mapBlockIndex.lookup hash = some pindex) :
    Unfailed (t.markBlockAsFailed start).mapBlockIndex hash ↔
      Unfailed t.mapBlockIndex hash ∧ ¬ Descends t.mapBlockIndex start hash := by
  have linkedAfter := ((sameTree_markBlockAsFailed t start).planted planted).linked
  refine planted.linked.induction (motive := fun hash _ => Unfailed (t.markBlockAsFailed start).mapBlockIndex hash ↔
    Unfailed t.mapBlockIndex hash ∧ ¬ Descends t.mapBlockIndex start hash) ?_ found
  intro hash pindex found ih
  obtain ⟨outside, inside⟩ := lookup_markBlockAsFailed t start hash
  by_cases below : Descends t.mapBlockIndex start hash
  · have after := inside below
    rw [found] at after
    refine ⟨fun unfailed => ?_, fun both => absurd below both.2⟩
    have clean := ((lineage_iff linkedAfter after).mp unfailed).1
    rw [isInvalid_raise _ (failureFlag_failing start hash).2] at clean
    cases clean
  · have after := (outside below).trans found
    rw [Unfailed, Unfailed, lineage_iff linkedAfter after, lineage_iff planted.linked found, and_iff_left below]
    refine and_congr_right fun _ => forall_congr' fun above => forall_congr' fun link => ?_
    obtain ⟨upper, at_, -⟩ := planted.linked hash pindex above found link
    -- the parent is not below `start` either
    have outsideAbove : ¬ Descends t.mapBlockIndex start above := fun reached => below (.child found link reached rfl)
    exact (ih above upper link at_).trans (and_iff_left outsideAbove)

/-- Invalidating `start` cuts no eligible block off: its parent is not eligible or has another eligible child. -/
def MayInvalidate (index : BlockMap) (start : Uint256) : Prop :=
  ∀ pindex parent, index.lookup start = some pindex → pindex.pprev = some parent → Eligible index parent →
    ∃ child sibling, child ≠ start ∧ index.lookup child = some sibling ∧
    sibling.pprev = some parent ∧ Eligible index child

variable {start : Uint256}

lemma Ready.markBlockAsFailed (ready : Ready t) (may : MayInvalidate t.mapBlockIndex start) :
    Ready (t.markBlockAsFailed start) := by
  have same := sameTree_markBlockAsFailed t start
  have eligibleIff : ∀ hash, Eligible (t.markBlockAsFailed start).mapBlockIndex hash ↔
      Eligible t.mapBlockIndex hash ∧ ¬ Descends t.mapBlockIndex start hash := by
    intro hash
    rw [eligible_iff, eligible_iff]
    constructor
    · rintro ⟨stocked, unfailed⟩
      obtain ⟨now, atNow⟩ := stocked.1
      obtain ⟨old, at_, -⟩ := same.symm.lookup atNow
      obtain ⟨unfailedOld, outside⟩ := (unfailed_markBlockAsFailed_iff ready.planted start at_).mp unfailed
      exact ⟨⟨(same.stocked_iff ready.planted at_).mpr stocked, unfailedOld⟩, outside⟩
    · rintro ⟨⟨stocked, unfailed⟩, outside⟩
      obtain ⟨old, at_⟩ := stocked.1
      exact ⟨(same.stocked_iff ready.planted at_).mp stocked,
        (unfailed_markBlockAsFailed_iff ready.planted start at_).mpr ⟨unfailed, outside⟩⟩
  refine ready.of_sameTree same rfl ?_ ?_
  · intro hash pindex found anchor valid
    obtain ⟨outside, inside⟩ := lookup_markBlockAsFailed t start hash
    by_cases below : Descends t.mapBlockIndex start hash
    · obtain ⟨old, -, rfl⟩ := map_eq_some_iff.mp ((inside below).symm.trans found)
      rw [isInvalid_raise _ (failureFlag_failing start hash).2] at valid
      cases valid
    · rw [outside below] at found
      exact (unfailed_markBlockAsFailed_iff ready.planted start found).mpr
        ⟨ready.unfailed hash pindex found anchor valid, below⟩
  · intro hash eligible parent
    obtain ⟨eligibleOld, outside⟩ := (eligibleIff hash).mp eligible
    -- an eligible child that is not `start` is not below `start`, since its parent is not
    have survivor : ∃ child pindex, child ≠ start ∧ t.mapBlockIndex.lookup child = some pindex ∧
        pindex.pprev = some hash ∧ Eligible t.mapBlockIndex child := by
      obtain ⟨child, pindex, found, link, eligibleChild⟩ := ready.fruitful hash eligibleOld (same.hasChildren_of parent)
      by_cases isStart : child = start
      · subst isStart
        obtain ⟨sibling, entry, different, at_, linkSibling, eligibleSibling⟩ := may pindex hash found link eligibleOld
        exact ⟨sibling, entry, different, at_, linkSibling, eligibleSibling⟩
      · exact ⟨child, pindex, isStart, found, link, eligibleChild⟩
    obtain ⟨child, pindex, different, found, link, eligibleChild⟩ := survivor
    obtain ⟨now, atNow, agree⟩ := same.lookup found
    refine ⟨child, now, atNow, agree.pprev.trans link, (eligibleIff child).mpr ⟨eligibleChild, ?_⟩⟩
    intro below
    cases below with
    | start => exact different rfl
    | child at_ linkBelow reached _ =>
      cases found.symm.trans at_
      cases link.symm.trans linkBelow
      exact outside reached

/-- Reconsidering `start` leaves nothing behind: no ancestor of it failed, and every revived block
with children has a revived child that has been received. -/
structure MayReconsider (index : BlockMap) (start : Uint256) : Prop where
  topmost : ∀ pindex parent, index.lookup start = some pindex → pindex.pprev = some parent → Unfailed index parent
  fruitful : ∀ hash, Revives index start hash → Stocked index hash → hasChildren index hash = true →
    ∃ child pindex, index.lookup child = some pindex ∧ pindex.pprev = some hash ∧ Revives index start child ∧
      pindex.Received

lemma unfailed_markBlockAsValid_iff (planted : Planted t.mapBlockIndex) (may : MayReconsider t.mapBlockIndex start)
    (found : t.mapBlockIndex.lookup hash = some pindex) :
    Unfailed (t.markBlockAsValid start).mapBlockIndex hash ↔
      Unfailed t.mapBlockIndex hash ∨ Revives t.mapBlockIndex start hash := by
  have linkedAfter := ((sameTree_markBlockAsValid t start).planted planted).linked
  refine planted.linked.induction (motive := fun hash _ => Unfailed (t.markBlockAsValid start).mapBlockIndex hash ↔
    Unfailed t.mapBlockIndex hash ∨ Revives t.mapBlockIndex start hash) ?_ found
  intro hash pindex found ih
  obtain ⟨atStart, visited, untouched⟩ := lookup_markBlockAsValid t start hash
  by_cases here : hash = start
  · -- the target itself is cleared, and nothing above it has failed
    subst here
    have after := atStart rfl
    rw [found] at after
    refine ⟨fun _ => .inr .start, fun _ => (lineage_iff linkedAfter after).mpr ⟨isInvalid_clear_mask pindex, ?_⟩⟩
    intro above link
    obtain ⟨upper, at_, -⟩ := planted.linked hash pindex above found link
    exact (ih above upper link at_).mpr (.inl (may.topmost pindex above found link))
  · by_cases reached : ∃ above, pindex.pprev = some above ∧ Revives t.mapBlockIndex start above
    · obtain ⟨above, link, revived⟩ := reached
      have after := visited pindex above here found link revived
      obtain ⟨upper, at_, -⟩ := planted.linked hash pindex above found link
      have unfailedAbove := (ih above upper link at_).mpr (.inr revived)
      rw [Unfailed, lineage_iff linkedAfter after]
      constructor
      · rintro ⟨valid, -⟩
        exact .inr (.child found link revived (by rw [valid]; rfl))
      · intro either
        refine ⟨?_, fun other otherLink => some.inj (link.symm.trans otherLink) ▸ unfailedAbove⟩
        rcases either with unfailed | revivedHere
        · exact isInvalid_clear_of_valid _ ((lineage_iff planted.linked found).mp unfailed).1
        · cases revivedHere with
          | start => exact absurd rfl here
          | child at' _ _ admitted =>
            cases found.symm.trans at'
            simpa using admitted
    · have after : (t.markBlockAsValid start).mapBlockIndex.lookup hash = some pindex := by
        refine (untouched here ?_).trans found
        intro other above at' link revived
        cases found.symm.trans at'
        exact reached ⟨above, link, revived⟩
      have notRevived : ¬ Revives t.mapBlockIndex start hash := by
        intro revived
        cases revived with
        | start => exact here rfl
        | child at' link revivedAbove _ =>
          cases found.symm.trans at'
          exact reached ⟨_, link, revivedAbove⟩
      rw [or_iff_left notRevived, Unfailed, Unfailed, lineage_iff linkedAfter after, lineage_iff planted.linked found]
      refine and_congr_right fun _ => forall_congr' fun above => forall_congr' fun link => ?_
      obtain ⟨upper, at_, -⟩ := planted.linked hash pindex above found link
      exact (ih above upper link at_).trans (or_iff_left fun revived => reached ⟨above, link, revived⟩)

lemma Ready.markBlockAsValid (ready : Ready t) (may : MayReconsider t.mapBlockIndex start) :
    Ready { t with mapBlockIndex := (t.markBlockAsValid start).mapBlockIndex } := by
  have same := sameTree_markBlockAsValid t start
  refine ready.of_sameTree same rfl ?_ ?_
  · intro hash pindex found anchor valid
    obtain ⟨old, at_, agree⟩ := same.symm.lookup found
    refine (unfailed_markBlockAsValid_iff ready.planted may at_).mpr ?_
    obtain ⟨-, visited, untouched⟩ := lookup_markBlockAsValid t start hash
    by_cases here : hash = start
    · exact .inr (here ▸ .start)
    by_cases reached : ∃ above, old.pprev = some above ∧ Revives t.mapBlockIndex start above
    · obtain ⟨above, link, revived⟩ := reached
      cases found.symm.trans (visited old above here at_ link revived)
      exact .inr (.child at_ link revived (by rw [valid]; rfl))
    · have unchanged := untouched here fun other above at' link revived =>
        reached ⟨above, (some.inj (at_.symm.trans at')) ▸ link, revived⟩
      obtain rfl := some.inj (at_.symm.trans (unchanged.symm.trans found))
      exact .inl (ready.unfailed hash old at_ anchor valid)
  · intro hash eligible parent
    obtain ⟨stockedAfter, unfailedAfter⟩ := (eligible_iff _ _).mp eligible
    obtain ⟨now, atNow⟩ := stockedAfter.1
    obtain ⟨old, at_, -⟩ := same.symm.lookup atNow
    have stocked := (same.stocked_iff ready.planted at_).mpr stockedAfter
    have parentOld := same.hasChildren_of parent
    -- an eligible child exists whether `hash` was eligible before or is revived now
    have heir : ∃ child pindex, t.mapBlockIndex.lookup child = some pindex ∧ pindex.pprev = some hash ∧
        Stocked t.mapBlockIndex child ∧ (Unfailed t.mapBlockIndex child ∨ Revives t.mapBlockIndex start child) := by
      rcases (unfailed_markBlockAsValid_iff ready.planted may at_).mp unfailedAfter with unfailed | revived
      · obtain ⟨child, pindex, found, link, eligibleChild⟩ :=
          ready.fruitful hash ((eligible_iff _ _).mpr ⟨stocked, unfailed⟩) parentOld
        have both := (eligible_iff _ _).mp eligibleChild
        exact ⟨child, pindex, found, link, both.1, .inl both.2⟩
      · obtain ⟨child, pindex, found, link, revivedChild, received⟩ := may.fruitful hash revived stocked parentOld
        refine ⟨child, pindex, found, link, ?_, .inr revivedChild⟩
        exact (lineage_iff ready.planted.linked found).mpr
          ⟨received, fun above linked => some.inj (link.symm.trans linked) ▸ stocked⟩
    obtain ⟨child, pindex, found, link, stockedChild, either⟩ := heir
    obtain ⟨nowChild, atChild, agree⟩ := same.lookup found
    refine ⟨child, nowChild, atChild, agree.pprev.trans link, (eligible_iff _ _).mpr ⟨?_, ?_⟩⟩
    · exact (same.stocked_iff ready.planted found).mp stockedChild
    · exact (unfailed_markBlockAsValid_iff ready.planted may found).mpr either

structure Fits (index : BlockMap) (pindex : CBlockIndex) : Prop where
  off_main : pindex.pnext = none
  work : ∀ parent above, pindex.pprev = some parent → index.lookup parent = some above →
    above.nChainWork.toNat < pindex.nChainWork.toNat
  address : ∀ other entry, index.lookup other = some entry → entry.address ≠ pindex.address
  outputs : ∀ other entry, index.lookup other = some entry → entry.nChainWork = pindex.nChainWork →
    entry.header.vdfOutput.isNull = pindex.header.vdfOutput.isNull

/-- The entry does not become the block to select: its parent is not eligible, or an eligible block precedes it. -/
def NotFirst (index : BlockMap) (pindex : CBlockIndex) : Prop :=
  (∃ parent, pindex.pprev = some parent ∧ ¬ Eligible index parent) ∨
    ∃ other entry, index.lookup other = some entry ∧ Eligible index other ∧ workComparator entry pindex = true

/-- Adding a received block is harmless: it was received before, or it is a leaf that need not be
selected at once. -/
inductive MayAdd (t : BlockTree) (hash : Uint256) (pindex : CBlockIndex) : Prop
  | repeated (existing : CBlockIndex) (known : t.getBlockIndex hash = some existing) (received : existing.Received)
      (valid : pindex.isInvalid = false) (linked : pindex.pprev = none ∨ existing.pprev.isSome = true)
  | leaf (received : pindex.Received) (valid : pindex.isInvalid = false)
      (childless : hasChildren t.mapBlockIndex hash = false)
      (linked : ∀ existing, t.getBlockIndex hash = some existing → pindex.pprev = none ∨ existing.pprev.isSome = true)
      (fits : t.getBlockIndex hash = none → Fits t.mapBlockIndex pindex)
      (notFirst : NotFirst t.mapBlockIndex (t.storedEntry hash pindex))

lemma harmless_of_valid (valid : pindex.isInvalid = false) : pindex.nStatus &&& blockFailedMask = 0 := by
  simpa [isInvalid] using valid

variable {index : BlockMap}

lemma SameTree.unfailed_iff {other : BlockMap} (same : SameTree index other) (planted : Planted index)
    (sameFlags : ∀ hash old new, index.lookup hash = some old → other.lookup hash = some new →
      new.isInvalid = old.isInvalid)
    (hash : Uint256) : Unfailed index hash ↔ Unfailed other hash := by
  cases found : index.lookup hash with
  | none => exact iff_of_false (not_lineage found) (not_lineage (same.lookup_none found))
  | some pindex =>
    refine lineage_congr planted.linked (same.planted planted).linked (fun _ => True)
      (fun _ _ _ _ _ _ => trivial) ?_ found trivial
    intro key value _ at_
    obtain ⟨now, atNow, agree⟩ := same.lookup at_
    exact ⟨now, atNow, agree.pprev, by rw [sameFlags key value now at_ atNow]⟩

variable {after : BlockTree}

lemma repeated_kept (ready : Ready t) (covers : Covers t t.setBlockIndexCandidates)
    {existing : CBlockIndex} (added : t.addBlockIndex hash pindex = some after)
    (known : t.getBlockIndex hash = some existing) (received : existing.Received) (valid : pindex.isInvalid = false)
    (linked : pindex.pprev = none ∨ existing.pprev.isSome = true) :
    Ready after ∧ Covers after after.setBlockIndexCandidates := by
  obtain ⟨sameTip, sameCandidates, atHash, elsewhere⟩ := addBlockIndex_lookup added
  rw [storedEntry_known known linked] at atHash
  have found : t.mapBlockIndex.lookup hash = some existing := known
  have same : SameTree t.mapBlockIndex after.mapBlockIndex := by
    intro other
    by_cases here : other = hash
    · subst here
      rw [atHash, found]
      refine .some ⟨rfl, rfl, rfl, rfl, rfl, rfl, rfl, ?_, ?_⟩
      · exact iff_of_true (UInt32.le_trans received.1 (existing.validLevel_le_raise _)) received.1
      · rw [existing.haveData_raise _ (.inl received.2), received.2]
    · rw [elsewhere other here]
      cases t.mapBlockIndex.lookup other with
      | none => exact .none
      | some entry => exact .some ⟨rfl, rfl, rfl, rfl, rfl, rfl, rfl, Iff.rfl, rfl⟩
  have sameFlags : ∀ other old new, t.mapBlockIndex.lookup other = some old →
      after.mapBlockIndex.lookup other = some new →
      new.isInvalid = old.isInvalid := by
    intro other old new atOld atNew
    by_cases here : other = hash
    · subst here
      cases found.symm.trans atOld
      cases atHash.symm.trans atNew
      exact existing.isInvalid_raise_of_valid _ (harmless_of_valid valid)
    · rw [elsewhere other here, atOld] at atNew
      rw [some.inj atNew]
  have unfailedIff := same.unfailed_iff ready.planted sameFlags
  have eligibleIff := same.eligible_iff ready.planted unfailedIff
  refine ⟨ready.of_sameTree same sameTip ?_ ?_, sameCandidates ▸ covers.of_sameTree same eligibleIff⟩
  · intro other new atNew anchor validNew
    obtain ⟨old, atOld, agree⟩ := same.symm.lookup atNew
    rw [sameFlags other old new atOld atNew] at validNew
    have oldAnchor : t.Anchor other old := by
      rwa [Anchor, isOnMainChain, agree.pnext, agree.height, ← sameTip]
    exact (unfailedIff other).mp (ready.unfailed other old atOld oldAnchor validNew)
  · intro other eligible parent
    obtain ⟨child, entry, atChild, link, eligibleChild⟩ :=
      ready.fruitful other ((eligibleIff other).mpr eligible) (same.hasChildren_of parent)
    obtain ⟨now, atNow, agree⟩ := same.lookup atChild
    exact ⟨child, now, atNow, agree.pprev.trans link, (eligibleIff child).mp eligibleChild⟩

/-- `other` is `index` with `entry` at the childless `hash`, which had nothing or an entry that differs in
its status. -/
structure Graft (index other : BlockMap) (hash : Uint256) (entry : CBlockIndex) : Prop where
  at_hash : other.lookup hash = some entry
  elsewhere : ∀ key, key ≠ hash → other.lookup key = index.lookup key
  childless : hasChildren index hash = false
  received : entry.Received
  parent : ∀ above, entry.pprev = some above → above ≠ hash ∧ ∃ upper, index.lookup above = some upper ∧
    upper.nChainWork.toNat < entry.nChainWork.toNat
  address : ∀ key pindex, key ≠ hash → index.lookup key = some pindex → pindex.address ≠ entry.address
  outputs : ∀ key pindex, key ≠ hash → index.lookup key = some pindex → pindex.nChainWork = entry.nChainWork →
    pindex.header.vdfOutput.isNull = entry.header.vdfOutput.isNull
  height : 0 ≤ entry.nHeight
  /-- What was stored before. -/
  before : ∀ existing, index.lookup hash = some existing → ∃ flags, entry = existing.raise flags ∧
    flags &&& blockFailedMask = 0
  fresh : index.lookup hash = none → entry.isInvalid = false

namespace Graft

variable {index other : BlockMap} {hash : Uint256} {entry : CBlockIndex}

variable {key : Uint256}

section

variable (graft : Graft index other hash entry)

include graft

variable {pindex : CBlockIndex}

lemma not_parent {above : Uint256}
    (found : index.lookup key = some pindex) (link : pindex.pprev = some above) : above ≠ hash := by
  rintro rfl
  have parent := (hasChildren_iff above).mpr ⟨key, pindex, found, link⟩
  rw [graft.childless] at parent
  cases parent

lemma cases (found : other.lookup key = some pindex) :
    key = hash ∧ pindex = entry ∨ key ≠ hash ∧ index.lookup key = some pindex := by
  by_cases here : key = hash
  · subst here
    exact .inl ⟨rfl, some.inj (found.symm.trans graft.at_hash)⟩
  · exact .inr ⟨here, graft.elsewhere key here ▸ found⟩

lemma planted (planted : Planted index) : Planted other := by
  refine ⟨?_, ?_, ?_, ?_⟩
  · intro key pindex above found link
    rcases graft.cases found with ⟨rfl, rfl⟩ | ⟨-, old⟩
    · obtain ⟨different, upper, at_, less⟩ := graft.parent above link
      exact ⟨upper, (graft.elsewhere above different).trans at_, less⟩
    · obtain ⟨upper, at_, less⟩ := planted.linked key pindex above old link
      exact ⟨upper, (graft.elsewhere above (graft.not_parent old link)).trans at_, less⟩
  · intro a b left right atA atB equal
    rcases graft.cases atA with ⟨rfl, rfl⟩ | ⟨hereA, oldA⟩ <;>
      rcases graft.cases atB with ⟨hereB, isEntry⟩ | ⟨hereB, oldB⟩
    · exact hereB.symm
    · exact absurd equal.symm (graft.address b right hereB oldB)
    · exact absurd (isEntry ▸ equal) (graft.address a left hereA oldA)
    · exact planted.addresses a b left right oldA oldB equal
  · intro a b left right atA atB equal
    rcases graft.cases atA with ⟨rfl, rfl⟩ | ⟨hereA, oldA⟩ <;> rcases graft.cases atB with ⟨-, rfl⟩ | ⟨hereB, oldB⟩
    · rfl
    · exact (graft.outputs b right hereB oldB equal.symm).symm
    · exact graft.outputs a left hereA oldA equal
    · exact planted.outputs a b left right oldA oldB equal
  · intro key pindex found
    rcases graft.cases found with ⟨rfl, rfl⟩ | ⟨-, old⟩
    · exact graft.height
    · exact planted.heights key pindex old

variable {good : CBlockIndex → Prop}

/-- Nothing changes for the other blocks: none of them descends from the leaf. -/
lemma lineage_elsewhere_iff (planted : Planted index) (different : key ≠ hash) :
    Lineage pprev index good key ↔ Lineage pprev other good key := by
  cases found : index.lookup key with
  | none => exact iff_of_false (not_lineage found) (not_lineage ((graft.elsewhere key different).trans found))
  | some pindex =>
    refine lineage_congr planted.linked (graft.planted planted).linked (fun key => key ≠ hash) ?_ ?_ found different
    · intro key pindex above _ at_ link
      exact graft.not_parent at_ link
    · intro key pindex away at_
      exact ⟨pindex, (graft.elsewhere key away).trans at_, rfl, Iff.rfl⟩

lemma lineage_iff (planted : Planted index) : Lineage pprev other good hash ↔
    good entry ∧ ∀ above, entry.pprev = some above → Lineage pprev index good above := by
  rw [ParentTree.lineage_iff (graft.planted planted).linked graft.at_hash]
  refine and_congr_right fun _ => forall_congr' fun above => forall_congr' fun link => ?_
  exact (graft.lineage_elsewhere_iff planted (graft.parent above link).1).symm

lemma eligible_of (planted : Planted index) (eligible : Eligible index key) : Eligible other key := by
  by_cases here : key = hash
  · subst here
    obtain ⟨existing, found⟩ := eligible.1
    obtain ⟨flags, rfl, harmless⟩ := graft.before existing found
    obtain ⟨⟨-, valid⟩, above⟩ := (ParentTree.lineage_iff planted.linked found).mp eligible
    exact (graft.lineage_iff planted).mpr
      ⟨⟨graft.received, (existing.isInvalid_raise_of_valid flags harmless).trans valid⟩, above⟩
  · exact (graft.lineage_elsewhere_iff planted here).mp eligible

lemma agree_existing {existing : CBlockIndex} (found : index.lookup hash = some existing) (pindex : CBlockIndex) :
    workComparator entry pindex = workComparator existing pindex ∧
      workComparator pindex entry = workComparator pindex existing := by
  obtain ⟨flags, rfl, -⟩ := graft.before existing found
  exact ⟨rfl, rfl⟩

lemma precedes_eq {a b : Uint256} {left right : CBlockIndex}
    (atA : index.lookup a = some left) (atB : index.lookup b = some right) :
    precedes other a b = precedes index a b := by
  rw [precedes_of_lookup atA atB]
  by_cases hereA : a = hash <;> by_cases hereB : b = hash
  · subst hereA hereB
    cases atA.symm.trans atB
    rw [precedes_of_lookup graft.at_hash graft.at_hash, (graft.agree_existing atA entry).1,
      (graft.agree_existing atA left).2]
  · subst hereA
    rw [precedes_of_lookup graft.at_hash ((graft.elsewhere b hereB).trans atB), (graft.agree_existing atA right).1]
  · subst hereB
    rw [precedes_of_lookup ((graft.elsewhere a hereA).trans atA) graft.at_hash, (graft.agree_existing atB left).2]
  · rw [precedes_of_lookup ((graft.elsewhere a hereA).trans atA) ((graft.elsewhere b hereB).trans atB)]

end

end Graft

section

variable (linked : ∀ existing, t.getBlockIndex hash = some existing → pindex.pprev = none ∨
  existing.pprev.isSome = true)

include linked

lemma storedEntry_received (received : pindex.Received) : (t.storedEntry hash pindex).Received := by
  cases known : t.getBlockIndex hash with
  | none => simpa [storedEntry, known] using received
  | some existing =>
    rw [storedEntry_known known (linked existing known)]
    exact ⟨UInt32.le_trans received.1 (existing.level_le_raise pindex.nStatus),
      existing.haveData_raise _ (.inr (of_decide_eq_true received.2))⟩

variable (ready : Ready t) (added : t.addBlockIndex hash pindex = some after)
  (fits : t.getBlockIndex hash = none → Fits t.mapBlockIndex pindex)

include ready added fits

lemma graft_of_leaf (received : pindex.Received) (valid : pindex.isInvalid = false)
    (childless : hasChildren t.mapBlockIndex hash = false) :
    Graft t.mapBlockIndex after.mapBlockIndex hash (t.storedEntry hash pindex) := by
  obtain ⟨-, -, atHash, elsewhere⟩ := addBlockIndex_lookup added
  have entryReceived := storedEntry_received linked received
  cases known : t.getBlockIndex hash with
  | none =>
    have stored : t.storedEntry hash pindex = pindex := by simp [storedEntry, known]
    have fit := fits known
    obtain ⟨rootHeight, parentOf⟩ := addBlockIndex_new added known
    have missing : t.mapBlockIndex.lookup hash = none := known
    rw [stored] at atHash entryReceived ⊢
    refine ⟨atHash, elsewhere, childless, entryReceived, ?_, fun key entry _ => fit.address key entry,
      fun key entry _ => fit.outputs key entry, ?_, ?_, fun _ => valid⟩
    · intro above link
      obtain ⟨upper, at_, -⟩ := parentOf above link
      refine ⟨?_, upper, at_, fit.work above upper link at_⟩
      rintro rfl
      rw [missing] at at_
      cases at_
    · cases link : pindex.pprev with
      | none => rw [rootHeight link]
      | some above =>
        obtain ⟨upper, at_, height⟩ := parentOf above link
        have := ready.planted.heights above upper at_
        omega
    · intro existing found
      rw [missing] at found
      cases found
  | some existing =>
    have found : t.mapBlockIndex.lookup hash = some existing := known
    rw [storedEntry_known known (linked existing known)] at atHash entryReceived ⊢
    refine ⟨atHash, elsewhere, childless, entryReceived, ?_, ?_, ?_, ready.planted.heights hash existing found, ?_, ?_⟩
    · intro above link
      obtain ⟨upper, at_, less⟩ := ready.planted.linked hash existing above found link
      refine ⟨?_, upper, at_, less⟩
      rintro rfl
      cases found.symm.trans at_
      exact lt_irrefl _ less
    · intro key entry different at_ equal
      exact different (ready.planted.addresses key hash entry existing at_ found equal)
    · intro key entry _ at_ equal
      exact ready.planted.outputs key hash entry existing at_ found equal
    · intro other at_
      cases found.symm.trans at_
      exact ⟨pindex.nStatus, rfl, harmless_of_valid valid⟩
    · intro missing
      rw [found] at missing
      cases missing

lemma leaf_anchor (anchor : after.Anchor hash (t.storedEntry hash pindex)) :
    (∃ existing, t.mapBlockIndex.lookup hash = some existing ∧ t.Anchor hash existing ∧
      t.storedEntry hash pindex = existing.raise pindex.nStatus) ∨ (t.storedEntry hash pindex).pprev = none := by
  obtain ⟨sameTip, -, -, -⟩ := addBlockIndex_lookup added
  cases known : t.getBlockIndex hash with
  | some existing =>
    have stored := storedEntry_known known (linked existing known)
    rw [Anchor, stored, sameTip] at anchor
    exact .inl ⟨existing, known, anchor, stored⟩
  | none =>
    have missing : t.mapBlockIndex.lookup hash = none := known
    have stored : t.storedEntry hash pindex = pindex := by simp [storedEntry, known]
    rw [Anchor, stored, sameTip] at anchor
    right
    rw [stored]
    rcases anchor with tip | onMain | root
    · obtain ⟨entry, found⟩ := ready.tip_indexed hash tip
      rw [missing] at found
      cases found
    · rw [isOnMainChain, (fits known).off_main] at onMain
      cases onMain
    · cases link : pindex.pprev with
      | none => rfl
      | some above =>
        obtain ⟨upper, at_, height⟩ := (addBlockIndex_new added known).2 above link
        have := ready.planted.heights above upper at_
        omega

lemma leaf_ready
    (graft : Graft t.mapBlockIndex after.mapBlockIndex hash (t.storedEntry hash pindex)) : Ready after := by
  obtain ⟨sameTip, -, -, -⟩ := addBlockIndex_lookup added
  refine ⟨graft.planted ready.planted, ?_, ?_, ?_, ?_, ?_⟩
  · intro key tip
    by_cases here : key = hash
    · exact ⟨_, here ▸ graft.at_hash⟩
    · rw [graft.elsewhere key here]
      exact ready.tip_indexed key (sameTip ▸ tip)
  · intro key entry found
    rcases graft.cases found with ⟨rfl, rfl⟩ | ⟨-, old⟩
    · exact iff_of_true graft.received.2 graft.received.1
    · exact ready.coupled key entry old
  · intro key entry found anchor
    rcases graft.cases found with ⟨rfl, rfl⟩ | ⟨here, old⟩
    · refine (graft.lineage_iff ready.planted).mpr ⟨graft.received, fun above link => ?_⟩
      rcases leaf_anchor linked ready added fits anchor with ⟨existing, at_, oldAnchor, stored⟩ | root
      · rw [stored] at link
        exact ((lineage_iff ready.planted.linked at_).mp (ready.stocked key existing at_ oldAnchor)).2 above link
      · rw [root] at link
        cases link
    · rw [Anchor, sameTip] at anchor
      exact (graft.lineage_elsewhere_iff ready.planted here).mp (ready.stocked key entry old anchor)
  · intro key entry found anchor valid
    rcases graft.cases found with ⟨rfl, rfl⟩ | ⟨here, old⟩
    · refine (graft.lineage_iff ready.planted).mpr ⟨valid, fun above link => ?_⟩
      rcases leaf_anchor linked ready added fits anchor with ⟨existing, at_, oldAnchor, stored⟩ | root
      · rw [stored] at link
        obtain ⟨flags, raised, harmless⟩ := graft.before existing at_
        rw [raised, existing.isInvalid_raise_of_valid flags harmless] at valid
        exact ((lineage_iff ready.planted.linked at_).mp (ready.unfailed key existing at_ oldAnchor valid)).2 above link
      · rw [root] at link
        cases link
    · rw [Anchor, sameTip] at anchor
      exact (graft.lineage_elsewhere_iff ready.planted here).mp (ready.unfailed key entry old anchor valid)
  · intro key eligible parent
    obtain ⟨child, entry, found, link⟩ := (hasChildren_iff key).mp parent
    have different : key ≠ hash := by
      rintro rfl
      by_cases here : child = key
      · subst here
        cases graft.at_hash.symm.trans found
        exact (graft.parent child link).1 rfl
      · exact graft.not_parent (graft.elsewhere child here ▸ found) link rfl
    have eligibleOld := (graft.lineage_elsewhere_iff ready.planted different).mpr eligible
    by_cases oldParent : hasChildren t.mapBlockIndex key = true
    · obtain ⟨heir, heirEntry, atHeir, heirLink, eligibleHeir⟩ := ready.fruitful key eligibleOld oldParent
      by_cases here : heir = hash
      · subst here
        obtain ⟨flags, raised, -⟩ := graft.before heirEntry atHeir
        exact ⟨heir, _, graft.at_hash, by rw [raised]; exact heirLink, graft.eligible_of ready.planted eligibleHeir⟩
      · exact ⟨heir, heirEntry, (graft.elsewhere heir here).trans atHeir, heirLink,
          graft.eligible_of ready.planted eligibleHeir⟩
    · -- the first child of `key` is the leaf just added
      have isLeaf : child = hash := by
        by_contra here
        exact oldParent ((hasChildren_iff key).mpr ⟨child, entry, graft.elsewhere child here ▸ found, link⟩)
      subst isLeaf
      cases graft.at_hash.symm.trans found
      have missing : t.mapBlockIndex.lookup child = none := by
        cases at_ : t.mapBlockIndex.lookup child with
        | none => rfl
        | some existing =>
          obtain ⟨flags, raised, -⟩ := graft.before existing at_
          exact absurd ((hasChildren_iff key).mpr ⟨child, existing, at_, by rw [raised] at link; exact link⟩) oldParent
      refine ⟨child, _, graft.at_hash, link,
        (graft.lineage_iff ready.planted).mpr ⟨⟨graft.received, graft.fresh missing⟩, ?_⟩⟩
      intro above linked'
      exact some.inj (link.symm.trans linked') ▸ eligibleOld

end

lemma leaf_covers (ready : Ready t) (covers : Covers t t.setBlockIndexCandidates)
    {entry : CBlockIndex} (sameCandidates : after.setBlockIndexCandidates = t.setBlockIndexCandidates)
    (graft : Graft t.mapBlockIndex after.mapBlockIndex hash entry) (notFirst : NotFirst t.mapBlockIndex entry) :
    Covers after after.setBlockIndexCandidates := by
  rw [sameCandidates]
  refine ⟨?_, ?_, ?_⟩
  · refine covers.sorted.imp_of_mem ?_
    intro a b memberA memberB before
    obtain ⟨left, atA, -⟩ := covers.checked a memberA
    obtain ⟨right, atB, -⟩ := covers.checked b memberB
    rw [graft.precedes_eq atA atB]
    exact before
  · intro key member
    obtain ⟨pindex, found, level⟩ := covers.checked key member
    by_cases here : key = hash
    · subst here
      exact ⟨entry, graft.at_hash, graft.received.1⟩
    · exact ⟨pindex, (graft.elsewhere key here).trans found, level⟩
  · intro key eligible
    -- a block eligible before has its candidate; the leaf borrows that of a block preceding it
    have old : ∀ key, Eligible t.mapBlockIndex key → ∃ best ∈ t.setBlockIndexCandidates,
        Eligible after.mapBlockIndex best ∧ precedes after.mapBlockIndex key best = false := by
      intro key eligibleOld
      obtain ⟨best, member, eligibleBest, notBefore⟩ := covers.covering key eligibleOld
      obtain ⟨left, atKey⟩ := eligibleOld.1
      obtain ⟨right, atBest⟩ := eligibleBest.1
      exact ⟨best, member, graft.eligible_of ready.planted eligibleBest, by rwa [graft.precedes_eq atKey atBest]⟩
    by_cases eligibleOld : Eligible t.mapBlockIndex key
    · exact old key eligibleOld
    · have here : key = hash := by
        by_contra different
        exact eligibleOld ((graft.lineage_elsewhere_iff ready.planted different).mpr eligible)
      subst here
      obtain ⟨-, parents⟩ := (graft.lineage_iff ready.planted).mp eligible
      rcases notFirst with ⟨parent, link, ineligible⟩ | ⟨other, pindex, found, eligibleOther, before⟩
      · exact absurd (parents parent link) ineligible
      · have different : other ≠ key := by
          rintro rfl
          exact eligibleOld eligibleOther
        obtain ⟨best, member, eligibleBest, notBefore⟩ := old other eligibleOther
        refine ⟨best, member, eligibleBest, ?_⟩
        rw [Bool.eq_false_iff]
        intro beforeBest
        have atOther := (graft.elsewhere other different).trans found
        have first : precedes after.mapBlockIndex other key = true := by
          rwa [precedes_of_lookup atOther graft.at_hash]
        have through := (graft.planted ready.planted).strict.trans other key best ⟨_, atOther⟩ ⟨_, graft.at_hash⟩
          eligibleBest.1 first beforeBest
        rw [notBefore] at through
        cases through

lemma addBlockIndex_kept (ready : Ready t) (covers : Covers t t.setBlockIndexCandidates)
    (added : t.addBlockIndex hash pindex = some after)
    (may : MayAdd t hash pindex) : Ready after ∧ Covers after after.setBlockIndexCandidates := by
  cases may with
  | repeated existing known received valid linked => exact repeated_kept ready covers added known received valid linked
  | leaf received valid childless linked fits notFirst =>
    have graft := graft_of_leaf linked ready added fits received valid childless
    obtain ⟨-, sameCandidates, -, -⟩ := addBlockIndex_lookup added
    exact ⟨leaf_ready linked ready added fits graft, leaf_covers ready covers sameCandidates graft notFirst⟩

inductive Action where
  | addBlockIndex (hash : Uint256) (pindex : CBlockIndex)
  | invalidateBlock (hash : Uint256)
  | reconsiderBlock (hash : Uint256)
  | findMostWorkChain

/-- One call; `none` when an invariant of `AddBlockIndex` aborts the process. -/
def Action.perform (t : BlockTree) : Action → Option BlockTree
  | .addBlockIndex hash pindex => t.addBlockIndex hash pindex
  | .invalidateBlock hash => some (t.invalidateBlockImpl hash).2
  | .reconsiderBlock hash => some (t.reconsiderBlockImpl hash).2
  | .findMostWorkChain => some t.findMostWorkChainImpl.2

def Action.Allowed (t : BlockTree) : Action → Prop
  | .addBlockIndex hash pindex => MayAdd t hash pindex
  | .invalidateBlock hash => MayInvalidate t.mapBlockIndex hash
  | .reconsiderBlock hash => ∀ pindex, t.mapBlockIndex.lookup hash = some pindex → MayReconsider t.mapBlockIndex hash
  | .findMostWorkChain => True

inductive AllowedRun : BlockTree → List Action → BlockTree → Prop
  | nil (t : BlockTree) : AllowedRun t [] t
  | cons {t next after : BlockTree} {action : Action} {rest : List Action} : action.Allowed t →
      action.perform t = some next → AllowedRun next rest after → AllowedRun t (action :: rest) after

lemma Action.kept (ready : Ready t) (covers : Covers t t.setBlockIndexCandidates) {action : Action}
    (allowed : action.Allowed t) (performed : action.perform t = some after) :
    Ready after ∧ Covers after after.setBlockIndexCandidates := by
  cases action with
  | addBlockIndex hash pindex => exact addBlockIndex_kept ready covers performed allowed
  | invalidateBlock hash =>
    obtain rfl := some.inj performed
    unfold invalidateBlockImpl
    split
    · exact ⟨ready, covers⟩
    · exact (ready.markBlockAsFailed allowed).recomputeCandidates
  | reconsiderBlock hash =>
    obtain rfl := some.inj performed
    unfold reconsiderBlockImpl
    split
    · exact ⟨ready, covers⟩
    · rename_i pindex known
      exact (ready.markBlockAsValid (allowed pindex known)).recomputeCandidates
  | findMostWorkChain =>
    obtain rfl := some.inj performed
    exact (findMostWorkFrom_spec ready covers).2

lemma AllowedRun.kept {actions : List Action} (run : AllowedRun t actions after) (ready : Ready t)
    (covers : Covers t t.setBlockIndexCandidates) : Ready after ∧ Covers after after.setBlockIndexCandidates := by
  induction run with
  | nil t => exact ⟨ready, covers⟩
  | cons allowed performed _ ih =>
    obtain ⟨readyNext, coversNext⟩ := Action.kept ready covers allowed performed
    exact ih readyNext coversNext

/-- In every state of every allowed run from a ready tree with recomputed candidates, the search selects
a first eligible block. -/
theorem findMostWorkChain_selects_most_work (t after : BlockTree) (ready : Ready t) (actions : List Action)
    (run : AllowedRun t.recomputeCandidates actions after) : SelectsMostWork after := by
  obtain ⟨readyStart, coversStart⟩ := ready.recomputeCandidates
  obtain ⟨readyAfter, coversAfter⟩ := run.kept readyStart coversStart
  exact (findMostWorkFrom_spec readyAfter coversAfter).1

section Decide

variable {index : BlockMap}

instance : DecidablePred CBlockIndex.Received := fun pindex =>
  inferInstanceAs (Decidable (blockValidTransactions ≤ pindex.validLevel ∧ pindex.haveData = true))

instance (good : CBlockIndex → Prop) [DecidablePred good] : DecidablePred (Lineage pprev index good) :=
  fun hash => decidable_of_iff ((index.lookup hash).isSome = true ∧
    ∀ entry ∈ chain pprev index (some hash), good entry.2) (by rw [Lineage, Option.isSome_iff_exists])

instance (t : BlockTree) (hash : Uint256) (pindex : CBlockIndex) : Decidable (t.Anchor hash pindex) :=
  inferInstanceAs (Decidable (_ ∨ _ ∨ _))

/-- The tests of one entry that `Ready` asks for. -/
def readyEntry (t : BlockTree) (hash : Uint256) (pindex : CBlockIndex) : Bool :=
  pindex.pprev.all (fun above => (t.mapBlockIndex.lookup above).any fun upper =>
    decide (upper.nChainWork.toNat < pindex.nChainWork.toNat)) &&
  decide (0 ≤ pindex.nHeight) &&
  (pindex.haveData == decide (blockValidTransactions ≤ pindex.validLevel)) &&
  (!decide (t.Anchor hash pindex) ||
    (decide (Stocked t.mapBlockIndex hash) && (pindex.isInvalid || decide (Unfailed t.mapBlockIndex hash)))) &&
  (!(decide (Eligible t.mapBlockIndex hash) && hasChildren t.mapBlockIndex hash) ||
    t.mapBlockIndex.entries.any fun child =>
      decide (child.2.pprev = some hash) && decide (Eligible t.mapBlockIndex child.1)) &&
  t.mapBlockIndex.entries.all fun other =>
    (other.2.address != pindex.address || decide (other.1 = hash)) &&
    (other.2.nChainWork != pindex.nChainWork ||
      other.2.header.vdfOutput.isNull == pindex.header.vdfOutput.isNull)

lemma ready_of_entries (tip : ∀ hash, t.pindexTip = some hash → (t.mapBlockIndex.lookup hash).isSome = true)
    (entries : ∀ entry ∈ t.mapBlockIndex.entries, t.readyEntry entry.1 entry.2 = true) : Ready t := by
  have each := Table.forall_lookup (fun hash pindex => t.readyEntry hash pindex = true) entries
  simp only [readyEntry, Bool.and_eq_true, all_eq_true, any_eq_true, decide_eq_true_eq, beq_iff_eq,
    Bool.or_eq_true, Bool.not_eq_true', List.any_eq_true, List.all_eq_true, bne_iff_ne] at each
  refine ⟨⟨?_, ?_, ?_, ?_⟩, ?_, ?_, ?_, ?_, ?_⟩
  · intro hash pindex above found link
    obtain ⟨upper, at_, less⟩ := (each hash pindex found).1.1.1.1.1 above link
    exact ⟨upper, at_, less⟩
  · intro a b left right atA atB equal
    exact (((each b right atB).2 ⟨a, left⟩ (AList.mem_lookup_iff.mp atA)).1).resolve_left (not_not_intro equal)
  · intro a b left right atA atB equal
    exact (((each b right atB).2 ⟨a, left⟩ (AList.mem_lookup_iff.mp atA)).2).resolve_left (not_not_intro equal)
  · exact fun hash pindex found => (each hash pindex found).1.1.1.1.2
  · exact fun hash isTip => isSome_iff_exists.mp (tip hash isTip)
  · intro hash pindex found
    rw [(each hash pindex found).1.1.1.2, decide_eq_true_eq]
  · intro hash pindex found anchor
    exact ((each hash pindex found).1.1.2.resolve_left (by simp [anchor])).1
  · intro hash pindex found anchor valid
    exact (((each hash pindex found).1.1.2.resolve_left (by simp [anchor])).2).resolve_left (by simp [valid])
  · intro hash eligible parent
    obtain ⟨pindex, found⟩ := eligible.1
    obtain ⟨⟨child, entry⟩, member, link, eligibleChild⟩ :=
      (each hash pindex found).1.2.resolve_left (by simp [eligible, parent])
    exact ⟨child, entry, AList.mem_lookup_iff.mpr member, link, eligibleChild⟩

end Decide

def receivedBlock (pprev pnext : Option Uint256) (nHeight : Int) (work address : Nat) : CBlockIndex where
  header := ⟨1, pprev.getD .null, .null, 0, 0, 0, .null, .null⟩
  pprev := pprev
  pnext := pnext
  nHeight := nHeight
  nChainWork := .ofNat work
  nStatus := blockHaveData ||| blockValidTransactions
  nSequenceId := 0
  nVersion := 1
  address := address

def genesisHash : Uint256 := .ofNat 1
def tipHash : Uint256 := .ofNat 2
def siblingHash : Uint256 := .ofNat 3

def twoBlocks : BlockTree where
  mapBlockIndex := (AList.insert tipHash (receivedBlock (some genesisHash) none 1 5 200) ∅).insert genesisHash
    (receivedBlock none (some tipHash) 0 1 100)
  pindexTip := some tipHash
  setBlockIndexCandidates := []

lemma twoBlocks_ready : Ready twoBlocks :=
  ready_of_entries (fun hash tip => by obtain rfl := some.inj tip; rfl) (by decide +kernel)

def sibling : CBlockIndex := receivedBlock (some genesisHash) none 1 3 300

def threeBlocks : BlockTree := (twoBlocks.recomputeCandidates.addBlockIndex siblingHash sibling).getD twoBlocks

def threeBlocksFailed : BlockTree := (threeBlocks.invalidateBlockImpl siblingHash).2

lemma parent_of_sibling {parent : Uint256} (here : (index.lookup siblingHash).bind pprev = some genesisHash)
    (found : index.lookup siblingHash = some pindex) (link : pindex.pprev = some parent) : parent = genesisHash := by
  rw [found, bind_some, link] at here
  exact some.inj here

lemma sibling_mayAdd : MayAdd twoBlocks.recomputeCandidates siblingHash sibling := by
  refine .leaf (by decide) (by decide) (by rfl) ?_ (fun _ => ⟨rfl, ?_, ?_, ?_⟩) (.inr ?_)
  · intro existing known
    cases known
  · intro parent above link found
    obtain rfl := some.inj link
    have work : (twoBlocks.mapBlockIndex.lookup genesisHash).any
        (fun entry => decide (entry.nChainWork.toNat < sibling.nChainWork.toNat)) = true := by rfl
    have found' : twoBlocks.mapBlockIndex.lookup genesisHash = some above := found
    rw [found'] at work
    exact of_decide_eq_true work
  · exact Table.forall_lookup _ (by decide)
  · exact Table.forall_lookup _ (by decide)
  · exact ⟨tipHash, receivedBlock (some genesisHash) none 1 5 200, by rfl, by decide +kernel, by decide⟩

lemma sibling_mayInvalidate : MayInvalidate threeBlocks.mapBlockIndex siblingHash := by
  intro pindex parent found link _
  obtain rfl := parent_of_sibling (by decide) found link
  exact ⟨tipHash, receivedBlock (some genesisHash) none 1 5 200, by decide, by decide, rfl, by decide⟩

lemma sibling_mayReconsider : MayReconsider threeBlocksFailed.mapBlockIndex siblingHash := by
  have childless : hasChildren threeBlocksFailed.mapBlockIndex siblingHash = false := by decide
  -- the sibling is a leaf, so it is the only block revived
  have onlyIt : ∀ hash, Revives threeBlocksFailed.mapBlockIndex siblingHash hash → hash = siblingHash := by
    intro hash revived
    induction revived with
    | start => rfl
    | child found link _ _ ih =>
      subst ih
      rw [(hasChildren_iff _).mpr ⟨_, _, found, link⟩] at childless
      cases childless
  refine ⟨?_, ?_⟩
  · intro pindex parent found link
    obtain rfl := parent_of_sibling (by rfl) found link
    decide +kernel
  · intro hash revived _ parent
    rw [onlyIt hash revived] at parent
    cases parent

/-- Adding a lighter sibling, invalidating and reconsidering it: the tip stays selected throughout. -/
theorem selects_tip_over_sibling : ∃ after, AllowedRun twoBlocks.recomputeCandidates
    [.addBlockIndex siblingHash sibling, .invalidateBlock siblingHash, .reconsiderBlock siblingHash,
      .findMostWorkChain] after ∧
    SelectsMostWork after ∧ after.findMostWorkChainImpl.1 = some tipHash := by
  have added : (Action.addBlockIndex siblingHash sibling).perform twoBlocks.recomputeCandidates = some threeBlocks := by
    have succeeds : (twoBlocks.recomputeCandidates.addBlockIndex siblingHash sibling).isSome = true := by decide
    obtain ⟨after, done⟩ := isSome_iff_exists.mp succeeds
    rw [Action.perform, threeBlocks, done, getD_some]
  have run : AllowedRun twoBlocks.recomputeCandidates
      [.addBlockIndex siblingHash sibling, .invalidateBlock siblingHash,
        .reconsiderBlock siblingHash, .findMostWorkChain]
      (threeBlocksFailed.reconsiderBlockImpl siblingHash).2.findMostWorkChainImpl.2 :=
    .cons sibling_mayAdd added (.cons sibling_mayInvalidate rfl (.cons (fun _ _ => sibling_mayReconsider) rfl
      (.cons trivial rfl (.nil _))))
  exact ⟨_, run, findMostWorkChain_selects_most_work twoBlocks _ twoBlocks_ready _ run, by decide +kernel⟩

/-- After its child is invalidated the genesis block is the only eligible block, yet nothing is selected. -/
theorem invalidated_tip_strands_parent :
    Ready twoBlocks ∧ (twoBlocks.recomputeCandidates.invalidateBlockImpl tipHash).2.findMostWorkChainImpl.1 = none ∧
      Eligible (twoBlocks.recomputeCandidates.invalidateBlockImpl tipHash).2.mapBlockIndex genesisHash ∧
      ¬ SelectsMostWork (twoBlocks.recomputeCandidates.invalidateBlockImpl tipHash).2 := by
  have silent : (twoBlocks.recomputeCandidates.invalidateBlockImpl tipHash).2.findMostWorkChainImpl.1 = none := by
    rfl
  have eligible : Eligible (twoBlocks.recomputeCandidates.invalidateBlockImpl tipHash).2.mapBlockIndex genesisHash := by
    decide
  refine ⟨twoBlocks_ready, silent, eligible, ?_⟩
  exact fun none => none genesisHash eligible

end Dilithion.BlockTree
