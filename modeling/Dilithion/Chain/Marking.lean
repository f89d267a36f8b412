import Dilithion.Chain.Selection
import Dilithion.Chain.ActiveChain

/-! The functions that mark blocks as failed or valid, through the descendants of a block, and the entry of new ones. -/

namespace Dilithion.BlockTree

open Lib ParentTree CBlockIndex Table Option

abbrev Descends (index : BlockMap) (start hash : Uint256) : Prop :=
  Reached pprev (raise blockFailedChild) (fun _ => true) index start hash

variable (flags : UInt32) (start : Uint256)

def failureFlag (hash : Uint256) : UInt32 :=
  if hash = start then blockFailedValid else blockFailedChild

lemma failureFlag_failing (hash : Uint256) : failureFlag start hash &&& ~~~blockFailedMask = 0 ∧
    failureFlag start hash &&& blockFailedMask ≠ 0 := by
  unfold failureFlag
  split <;> decide

lemma lookup_markBlockAsFailed (t : BlockTree) (start hash : Uint256) : (¬ Descends t.mapBlockIndex start hash →
      (t.markBlockAsFailed start).mapBlockIndex.lookup hash = t.mapBlockIndex.lookup hash) ∧
    (Descends t.mapBlockIndex start hash → (t.markBlockAsFailed start).mapBlockIndex.lookup hash =
      (t.mapBlockIndex.lookup hash).map (raise (failureFlag start hash))) := by
  have keeps (pindex : CBlockIndex) : (pindex.raise blockFailedChild).pprev = pindex.pprev := rfl
  have idem (pindex : CBlockIndex) : (pindex.raise blockFailedChild).raise blockFailedChild =
      pindex.raise blockFailedChild := by
    simp [raise, UInt32.or_assoc]
  let target := t.mapBlockIndex.modify start (raise blockFailedValid)
  have same : (t.markBlockAsFailed start).mapBlockIndex = (markBelow pprev
      (raise blockFailedChild) (fun _ => true) target start).1 := rfl
  rw [same]
  constructor
  · intro outside
    have different : hash ≠ start := fun equal => outside (equal ▸ .start)
    rw [lookup_markBelow_of_untouched keeps idem, lookup_modify_ne different]
    rw [touched_modify_iff]
    rintro ⟨-, pindex, above, found, link, reached⟩
    exact outside (.child found link reached rfl)
  · intro inside
    by_cases here : hash = start
    · subst here
      rw [failureFlag, if_pos rfl, lookup_markBelow_of_untouched keeps idem
        (fun touched => touched.1 rfl), lookup_modify_self]
    · rw [failureFlag, if_neg here, lookup_markBelow_of_touched keeps idem, lookup_modify_ne here]
      rw [touched_modify_iff]
      cases inside with
      | start => exact absurd rfl here
      | child found link reached _ => exact ⟨here, _, _, found, link, reached⟩

lemma sameTree_markBlockAsFailed (t : BlockTree) (start : Uint256) :
    SameTree t.mapBlockIndex (t.markBlockAsFailed start).mapBlockIndex := by
  refine sameTree_of_unflagged fun hash => ?_
  obtain ⟨outside, inside⟩ := lookup_markBlockAsFailed t start hash
  by_cases below : Descends t.mapBlockIndex start hash
  · rw [inside below, map_map]
    congr 1
    funext pindex
    exact unflagged_raise (failureFlag_failing start hash).1 pindex
  · rw [outside below]

/-- Reached from `start` without passing a block that failed on its own account. -/
abbrev Revives (index : BlockMap) (start hash : Uint256) : Prop :=
  Reached pprev (clear blockFailedChild) (fun pindex => !pindex.isInvalid) index start hash

lemma isInvalid_clear_mask (pindex : CBlockIndex) : (pindex.clear blockFailedMask).isInvalid = false := by
  rw [isInvalid, status_clear, decide_eq_false_iff_not, not_not]
  exact UInt32.and_zero

variable {pindex : CBlockIndex}

lemma isInvalid_clear_of_valid (valid : pindex.isInvalid = false) : (pindex.clear flags).isInvalid = false := by
  rw [isInvalid, decide_eq_false_iff_not, not_not] at valid ⊢
  rw [status_clear, UInt32.and_comm (~~~flags), ← UInt32.and_assoc, valid]
  exact UInt32.zero_and

/-- A block whose parent is revived is visited, and revived unless it failed on its own account. -/
lemma lookup_markBlockAsValid (t : BlockTree) (start hash : Uint256) :
    (hash = start → (t.markBlockAsValid start).mapBlockIndex.lookup hash =
      (t.mapBlockIndex.lookup hash).map (clear blockFailedMask)) ∧
    (∀ pindex above, hash ≠ start → t.mapBlockIndex.lookup hash = some pindex → pindex.pprev = some above →
      Revives t.mapBlockIndex start above → (t.markBlockAsValid start).mapBlockIndex.lookup hash =
        some (pindex.clear blockFailedChild)) ∧
    (hash ≠ start → (∀ pindex above, t.mapBlockIndex.lookup hash = some pindex → pindex.pprev = some above →
      ¬ Revives t.mapBlockIndex start above) →
      (t.markBlockAsValid start).mapBlockIndex.lookup hash = t.mapBlockIndex.lookup hash) := by
  have keeps (pindex : CBlockIndex) : (pindex.clear blockFailedChild).pprev = pindex.pprev := rfl
  have idem (pindex : CBlockIndex) : (pindex.clear blockFailedChild).clear blockFailedChild =
      pindex.clear blockFailedChild := by
    simp [clear, UInt32.and_assoc]
  let target := t.mapBlockIndex.modify start (clear blockFailedMask)
  have same : (t.markBlockAsValid start).mapBlockIndex = (markBelow pprev
      (clear blockFailedChild) (fun pindex => !pindex.isInvalid) target start).1 := rfl
  rw [same]
  refine ⟨?_, ?_, ?_⟩
  · rintro rfl
    rw [lookup_markBelow_of_untouched keeps idem (fun touched => touched.1 rfl), lookup_modify_self]
  · intro pindex above different found link revived
    rw [lookup_markBelow_of_touched keeps idem, lookup_modify_ne different, found, map_some]
    exact (touched_modify_iff _ _).mpr ⟨different, pindex, above, found, link, revived⟩
  · intro different unreachable
    rw [lookup_markBelow_of_untouched keeps idem, lookup_modify_ne different]
    rw [touched_modify_iff]
    rintro ⟨-, pindex, above, found, link, reached⟩
    exact unreachable pindex above found link reached

lemma sameTree_markBlockAsValid (t : BlockTree) (start : Uint256) :
    SameTree t.mapBlockIndex (t.markBlockAsValid start).mapBlockIndex := by
  refine sameTree_of_unflagged fun hash => ?_
  obtain ⟨atStart, visited, untouched⟩ := lookup_markBlockAsValid t start hash
  by_cases here : hash = start
  · rw [atStart here, map_map]
    congr 1
    funext pindex
    exact unflagged_clear rfl pindex
  · by_cases reached : ∃ pindex above, t.mapBlockIndex.lookup hash = some pindex ∧ pindex.pprev = some above ∧
        Revives t.mapBlockIndex start above
    · obtain ⟨pindex, above, found, link, revived⟩ := reached
      rw [visited pindex above here found link revived, found, map_some, map_some,
        unflagged_clear rfl pindex]
    · rw [untouched here fun pindex above found link revived => reached ⟨pindex, above, found, link, revived⟩]

variable {t : BlockTree}

def storedEntry (t : BlockTree) (hash : Uint256) (pindex : CBlockIndex) : CBlockIndex :=
  match t.getBlockIndex hash with
  | none => pindex
  | some existing => { existing with
      pprev := existing.pprev.or pindex.pprev
      nStatus := existing.nStatus ||| pindex.nStatus }

variable {hash : Uint256} {after : BlockTree}

lemma addBlockIndex_lookup (added : t.addBlockIndex hash pindex = some after) :
    after.pindexTip = t.pindexTip ∧ after.setBlockIndexCandidates = t.setBlockIndexCandidates ∧
      after.mapBlockIndex.lookup hash = some (t.storedEntry hash pindex) ∧
      ∀ other, other ≠ hash → after.mapBlockIndex.lookup other = t.mapBlockIndex.lookup other := by
  unfold addBlockIndex at added
  unfold storedEntry
  cases found : t.getBlockIndex hash with
  | none =>
    have stored : after = { t with mapBlockIndex := t.mapBlockIndex.insert hash pindex } := by
      simp only [found] at added
      split at added
      · split at added
        · cases added
        · split at added
          · exact (some.inj added).symm
          · cases added
      · split at added
        · exact (some.inj added).symm
        · cases added
    subst stored
    exact ⟨rfl, rfl, AList.lookup_insert _, fun other different => AList.lookup_insert_ne different⟩
  | some existing =>
    have stored : after = { t with mapBlockIndex := t.mapBlockIndex.modify hash fun entry =>
        { entry with pprev := existing.pprev.or pindex.pprev, nStatus := entry.nStatus ||| pindex.nStatus } } := by
      simp only [found] at added
      split at added
      · cases added
      split at added
      · cases added
      split at added
      · rename_i known incoming atKnown atIncoming
        split at added
        · simpa [atKnown] using (some.inj added).symm
        · cases added
      · rename_i incoming atKnown atIncoming
        split at added
        · simpa [atKnown, atIncoming] using (some.inj added).symm
        · cases added
      · rename_i atIncoming
        simpa [atIncoming] using (some.inj added).symm
    subst stored
    refine ⟨rfl, rfl, ?_, fun other different => lookup_modify_ne different⟩
    have at_ : t.mapBlockIndex.lookup hash = some existing := found
    simp [at_]

lemma addBlockIndex_new (added : t.addBlockIndex hash pindex = some after) (unknown : t.getBlockIndex hash = none) :
    (pindex.pprev = none → pindex.nHeight = 0) ∧ ∀ parent, pindex.pprev = some parent →
      ∃ above, t.mapBlockIndex.lookup parent = some above ∧ pindex.nHeight = above.nHeight + 1 := by
  unfold addBlockIndex at added
  simp only [unknown] at added
  constructor
  · intro root
    simp only [root] at added
    split at added
    · assumption
    · cases added
  · intro parent link
    simp only [link] at added
    cases found : t.getBlockIndex parent with
    | none => simp [found] at added
    | some above =>
      simp only [found] at added
      split at added
      · exact ⟨above, found, by assumption⟩
      · cases added

lemma storedEntry_known {existing : CBlockIndex} (known : t.getBlockIndex hash = some existing)
    (linked : pindex.pprev = none ∨ existing.pprev.isSome = true) :
    t.storedEntry hash pindex = existing.raise pindex.nStatus := by
  have sameParent : existing.pprev.or pindex.pprev = existing.pprev := by
    rcases linked with none | some
    · rw [none, or_none]
    · cases link : existing.pprev with
      | none => simp [link] at some
      | some above => rfl
  simp [storedEntry, known, sameParent, raise]

/-- Every entry of `before` is still there, up to its forward link and its status. -/
def Retained (before after : BlockMap) : Prop :=
  ∀ key old, before.lookup key = some old → ∃ new, after.lookup key = some new ∧ new.bare = old.bare

section

variable {before after : BlockMap} {t u : BlockTree} {hash : Uint256} {pindex : CBlockIndex}

lemma Retained.refl (index : BlockMap) : Retained index index := fun _ old found => ⟨old, found, rfl⟩

lemma Relabelled.retained {spared : Uint256 → Prop} (relabelled : Relabelled spared before after) :
    Retained before after :=
  fun _ _ found => relabelled.lookup found

variable {chain : List Uint256}

lemma Retained.path (retained : Retained before after) (path : Path before chain) : Path after chain := by
  induction chain with
  | nil => trivial
  | cons first rest ih =>
    obtain ⟨⟨entry, found, link⟩, path⟩ := path
    obtain ⟨new, atNew, same⟩ := retained first entry found
    exact ⟨⟨new, atNew, (pprev_of_bare same).trans link⟩, ih path⟩

section

variable (retained : Retained t.mapBlockIndex u.mapBlockIndex) (steppedBefore : Stepped t.mapBlockIndex)
  (stepped : Stepped u.mapBlockIndex)

include retained steppedBefore stepped

lemma Retained.ancestry_eq (found : t.mapBlockIndex.lookup hash = some pindex) :
    (u.ancestry (some hash)).map Prod.fst = (t.ancestry (some hash)).map Prod.fst := by
  have same := (retained.path (path_ancestry steppedBefore (some hash))).ancestry_eq stepped
  rwa [head_ancestry steppedBefore found] at same

lemma Retained.activeChain_eq (tip : u.pindexTip = t.pindexTip)
    (indexed : ∀ hash, t.pindexTip = some hash → ∃ pindex, t.mapBlockIndex.lookup hash = some pindex) :
    u.activeChain = t.activeChain := by
  rw [activeChain, activeChain, tip]
  cases atTip : t.pindexTip with
  | none => simp [ancestry]
  | some hash =>
    obtain ⟨pindex, found⟩ := indexed hash atTip
    exact retained.ancestry_eq steppedBefore stepped found

end

lemma Path.indexed (path : Path before chain) (member : hash ∈ chain) :
    ∃ pindex, before.lookup hash = some pindex := by
  induction chain with
  | nil => cases member
  | cons first rest ih =>
    obtain ⟨⟨entry, found, -⟩, path⟩ := path
    rcases List.mem_cons.mp member with rfl | later
    · exact ⟨entry, found⟩
    · exact ih path later

/-- Adding a block keeps the place of every other block, unless it gives a parent to one that had none. -/
lemma addBlockIndex_grows
    (linked : ∀ existing, t.getBlockIndex hash = some existing → pindex.pprev = none ∨ existing.pprev.isSome = true)
    (added : t.addBlockIndex hash pindex = some u) :
    (∀ key old, t.mapBlockIndex.lookup key = some old →
      ∃ new, u.mapBlockIndex.lookup key = some new ∧ new.bare = old.bare) ∧
    ∀ key new, u.mapBlockIndex.lookup key = some new →
      (∃ old, t.mapBlockIndex.lookup key = some old ∧ new.bare = old.bare) ∨
      t.getBlockIndex hash = none ∧ new = pindex := by
  obtain ⟨-, -, atHash, elsewhere⟩ := addBlockIndex_lookup added
  refine ⟨fun key old found => ?_, fun key new found => ?_⟩
  · by_cases here : key = hash
    · subst here
      exact ⟨_, atHash, by rw [storedEntry_known found (linked old found)]; rfl⟩
    · exact ⟨old, (elsewhere key here).trans found, rfl⟩
  · by_cases here : key = hash
    · subst here
      cases atHash.symm.trans found
      cases known : t.getBlockIndex key with
      | none => exact .inr ⟨rfl, by simp [storedEntry, known]⟩
      | some existing => exact .inl ⟨existing, known, by rw [storedEntry_known known (linked existing known)]; rfl⟩
    · exact .inl ⟨new, (elsewhere key here).symm.trans found, rfl⟩

lemma stepped_addBlockIndex (stepped : Stepped t.mapBlockIndex)
    (linked : ∀ existing, t.getBlockIndex hash = some existing → pindex.pprev = none ∨ existing.pprev.isSome = true)
    (added : t.addBlockIndex hash pindex = some u) : Stepped u.mapBlockIndex := by
  obtain ⟨keeps, stems⟩ := addBlockIndex_grows linked added
  intro key entry parent found link
  obtain ⟨above, at_, height⟩ : ∃ above, t.mapBlockIndex.lookup parent = some above ∧
      entry.nHeight = above.nHeight + 1 := by
    rcases stems key entry found with ⟨old, at_, same⟩ | ⟨unknown, rfl⟩
    · rw [nHeight_of_bare same]
      exact stepped key old parent at_ (pprev_of_bare same ▸ link)
    · exact (addBlockIndex_new added unknown).2 parent link
  obtain ⟨new, atNew, same⟩ := keeps parent above at_
  exact ⟨new, atNew, by rw [nHeight_of_bare same, height]⟩

lemma Active.addBlockIndex (active : Active t)
    (indexed : ∀ tip, t.pindexTip = some tip → ∃ pindexTip, t.mapBlockIndex.lookup tip = some pindexTip)
    (unknown : t.getBlockIndex hash = none) (last : pindex.pnext = none) (idle : pindex.validChain = false)
    (added : t.addBlockIndex hash pindex = some u) : Active u ∧ u.activeChain = t.activeChain := by
  have linked : ∀ existing, t.getBlockIndex hash = some existing → pindex.pprev = none ∨ existing.pprev.isSome = true :=
    fun existing known => by cases unknown.symm.trans known
  obtain ⟨tip, -, atHash, elsewhere⟩ := addBlockIndex_lookup added
  have retained : Retained t.mapBlockIndex u.mapBlockIndex := (addBlockIndex_grows linked added).1
  have stepped := stepped_addBlockIndex active.stepped linked added
  have chain := retained.activeChain_eq active.stepped stepped tip indexed
  refine ⟨⟨stepped, ?_⟩, chain⟩
  rw [chain]
  intro key entry found
  by_cases here : key = hash
  · subst here
    have off : key ∉ t.activeChain := by
      intro member
      obtain ⟨pindex, known⟩ := active.path.indexed member
      cases unknown.symm.trans known
    have new : entry = pindex := by
      rw [atHash, storedEntry, unknown] at found
      exact (Option.some.inj found).symm
    subst new
    exact ⟨by rw [successor_of_not_mem off, last], by simp [idle, off], fun member => absurd member off⟩
  · rw [elsewhere key here] at found
    exact active.marked key entry found

end

end Dilithion.BlockTree
