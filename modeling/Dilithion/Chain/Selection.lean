import Dilithion.Chain.BlockIndex
import Dilithion.Lib.OptionalKey

/-! What selecting a tip is for, and what the candidate set needs for it. A block is eligible when it
and all its ancestors have been received and none of them failed; the tip to select is the first
eligible block in comparator order. The search over the candidates finds it when the candidates are in
order and cover the eligible blocks, and a recomputed candidate set, which holds leaves only, covers
them when every eligible block with a child has an eligible child. -/

namespace Dilithion

open Lib ParentTree CBlockIndex Table List

lemma workComparator_iff (a b : CBlockIndex) : workComparator a b = true ↔
    b.nChainWork.toNat < a.nChainWork.toNat ∨ (a.nChainWork.toNat = b.nChainWork.toNat ∧
      if a.header.vdfOutput.isNull = false ∧ b.header.vdfOutput.isNull = false ∧
          a.header.vdfOutput.toNat ≠ b.header.vdfOutput.toNat then
        a.header.vdfOutput.toNat < b.header.vdfOutput.toNat
      else a.nSequenceId.toNat < b.nSequenceId.toNat ∨
        (a.nSequenceId.toNat = b.nSequenceId.toNat ∧ a.address < b.address)) := by
  have work := chainWorkGreaterThan_iff
  have vdf := hashLessThan_iff
  unfold workComparator
  simp only [Bool.and_eq_true, Bool.not_eq_true', UInt32.lt_iff_toNat_lt, work, vdf]
  split <;> rename_i moreWork
  · simp [moreWork]
  · split <;> rename_i lessWork
    · simp
      omega
    · have sameWork : a.nChainWork.toNat = b.nChainWork.toNat := by omega
      simp only [sameWork, lt_irrefl, false_or, true_and]
      all_goals (repeat' split) <;> simp_all <;> omega

/-- Parents are indexed and carry less work, no two entries share an address, heights are not negative,
and among blocks of equal work either all or none carry a VDF output. -/
structure Planted (index : BlockMap) : Prop where
  linked : Ranked pprev (fun pindex => pindex.nChainWork.toNat) index
  addresses : ∀ a b left right, index.lookup a = some left → index.lookup b = some right →
    left.address = right.address → a = b
  outputs : ∀ a b left right, index.lookup a = some left → index.lookup b = some right →
    left.nChainWork = right.nChainWork → left.header.vdfOutput.isNull = right.header.vdfOutput.isNull
  heights : ∀ hash pindex, index.lookup hash = some pindex → 0 ≤ pindex.nHeight

namespace BlockTree

variable {index : BlockMap}

lemma precedes_of_lookup {a b : Uint256} {left right : CBlockIndex}
    (atA : index.lookup a = some left) (atB : index.lookup b = some right) :
    precedes index a b = workComparator left right := by
  simp [precedes, atA, atB]

end BlockTree

open BlockTree

lemma workComparator_trans {a b c : CBlockIndex}
    (sameAB : a.nChainWork = b.nChainWork → a.header.vdfOutput.isNull = b.header.vdfOutput.isNull)
    (sameBC : b.nChainWork = c.nChainWork → b.header.vdfOutput.isNull = c.header.vdfOutput.isNull)
    (first : workComparator a b = true) (second : workComparator b c = true) : workComparator a c = true := by
  rw [workComparator_iff] at first second ⊢
  rcases first with more | ⟨equalAB, first⟩
  · rcases second with more' | ⟨equalBC, -⟩ <;> omega
  · rcases second with more' | ⟨equalBC, second⟩
    · omega
    · -- with equal work the three blocks agree on whether they carry an output
      have nullAB := sameAB (Uint256.toNat_injective equalAB)
      have nullBC := sameBC (Uint256.toNat_injective equalBC)
      rw [nullAB] at first ⊢
      rw [nullBC] at first second ⊢
      cases null : c.header.vdfOutput.isNull with
      | false =>
        simp only [null, true_and, ne_eq, ite_not] at first second ⊢
        split at first <;> split at second <;> split <;> omega
      | true =>
        simp only [null, Bool.true_eq_false, false_and, if_false] at first second ⊢
        omega

lemma workComparator_connected {a b : CBlockIndex} (first : workComparator a b = false)
    (second : workComparator b a = false) : a.address = b.address := by
  rw [Bool.eq_false_iff, Ne, workComparator_iff] at first second
  rw [not_or, not_and] at first second
  have sameWork : a.nChainWork.toNat = b.nChainWork.toNat := by omega
  have onA := first.2 sameWork
  have onB := second.2 sameWork.symm
  by_cases outputs : a.header.vdfOutput.isNull = false ∧ b.header.vdfOutput.isNull = false
  · simp only [outputs.1, outputs.2, true_and, ne_eq, ite_not] at onA onB
    split at onA <;> split at onB <;> omega
  · have notA : ¬ (a.header.vdfOutput.isNull = false ∧ b.header.vdfOutput.isNull = false ∧
        a.header.vdfOutput.toNat ≠ b.header.vdfOutput.toNat) := fun all => outputs ⟨all.1, all.2.1⟩
    have notB : ¬ (b.header.vdfOutput.isNull = false ∧ a.header.vdfOutput.isNull = false ∧
        b.header.vdfOutput.toNat ≠ a.header.vdfOutput.toNat) := fun all => outputs ⟨all.2.1, all.1⟩
    rw [if_neg notA] at onA
    rw [if_neg notB] at onB
    omega

lemma Planted.strict {index : BlockMap} (planted : Planted index) :
    OrderedSet.StrictOn (precedes index) (fun hash => ∃ pindex, index.lookup hash = some pindex) := by
  refine ⟨?_, ?_, ?_⟩
  · intro a
    cases found : index.lookup a with
    | none => simp [precedes, found]
    | some pindex =>
      rw [precedes_of_lookup found found, Bool.eq_false_iff, Ne, workComparator_iff]
      simp
  · rintro a b c ⟨left, atA⟩ ⟨mid, atB⟩ ⟨right, atC⟩
    rw [precedes_of_lookup atA atB, precedes_of_lookup atB atC, precedes_of_lookup atA atC]
    exact workComparator_trans (planted.outputs a b left mid atA atB) (planted.outputs b c mid right atB atC)
  · rintro a b ⟨left, atA⟩ ⟨right, atB⟩
    rw [precedes_of_lookup atA atB, precedes_of_lookup atB atA]
    intro first second
    exact planted.addresses a b left right atA atB (workComparator_connected first second)

def CBlockIndex.Received (pindex : CBlockIndex) : Prop :=
  blockValidTransactions ≤ pindex.validLevel ∧ pindex.haveData = true

namespace BlockTree

abbrev Stocked (index : BlockMap) (hash : Uint256) : Prop :=
  Lineage pprev index CBlockIndex.Received hash

abbrev Unfailed (index : BlockMap) (hash : Uint256) : Prop :=
  Lineage pprev index (fun pindex => pindex.isInvalid = false) hash

abbrev Eligible (index : BlockMap) (hash : Uint256) : Prop :=
  Lineage pprev index (fun pindex => pindex.Received ∧ pindex.isInvalid = false) hash

lemma eligible_iff (index : BlockMap) (hash : Uint256) :
    Eligible index hash ↔ Stocked index hash ∧ Unfailed index hash := by
  constructor
  · rintro ⟨found, all⟩
    exact ⟨⟨found, fun entry member => (all entry member).1⟩, ⟨found, fun entry member => (all entry member).2⟩⟩
  · rintro ⟨⟨found, received⟩, ⟨-, unfailed⟩⟩
    exact ⟨found, fun entry member => ⟨received entry member, unfailed entry member⟩⟩

/-- An eligible block that no eligible block precedes; nothing only if no block is eligible. -/
def IsBest (index : BlockMap) : Option Uint256 → Prop
  | none => ∀ hash, ¬ Eligible index hash
  | some best => Eligible index best ∧ ∀ hash, Eligible index hash → precedes index hash best = false

def SelectsMostWork (t : BlockTree) : Prop := IsBest t.mapBlockIndex t.findMostWorkChainImpl.1

def Anchor (t : BlockTree) (hash : Uint256) (pindex : CBlockIndex) : Prop :=
  t.pindexTip = some hash ∨ pindex.isOnMainChain = true ∨ pindex.nHeight = 0

structure Ready (t : BlockTree) : Prop where
  planted : Planted t.mapBlockIndex
  tip_indexed : ∀ hash, t.pindexTip = some hash → ∃ pindex, t.mapBlockIndex.lookup hash = some pindex
  coupled : ∀ hash pindex, t.mapBlockIndex.lookup hash = some pindex →
    (pindex.haveData = true ↔ blockValidTransactions ≤ pindex.validLevel)
  stocked : ∀ hash pindex, t.mapBlockIndex.lookup hash = some pindex → t.Anchor hash pindex →
    Stocked t.mapBlockIndex hash
  unfailed : ∀ hash pindex, t.mapBlockIndex.lookup hash = some pindex → t.Anchor hash pindex →
    pindex.isInvalid = false → Unfailed t.mapBlockIndex hash
  fruitful : ∀ hash, Eligible t.mapBlockIndex hash → hasChildren t.mapBlockIndex hash = true →
    ∃ child pindex, t.mapBlockIndex.lookup child = some pindex ∧ pindex.pprev = some hash ∧
      Eligible t.mapBlockIndex child

/-- The candidates in comparator order; one of them is as good as any eligible block. -/
structure Covers (t : BlockTree) (candidates : List Uint256) : Prop where
  sorted : candidates.Pairwise fun a b => precedes t.mapBlockIndex a b = true
  checked : ∀ hash ∈ candidates, ∃ pindex, t.mapBlockIndex.lookup hash = some pindex ∧
    blockValidTransactions ≤ pindex.validLevel
  covering : ∀ hash, Eligible t.mapBlockIndex hash →
    ∃ best ∈ candidates, Eligible t.mapBlockIndex best ∧ precedes t.mapBlockIndex hash best = false

variable {t : BlockTree}

variable {hash : Uint256} {pindex : CBlockIndex}

lemma Ready.received (ready : Ready t) (found : t.mapBlockIndex.lookup hash = some pindex)
    (checked : blockValidTransactions ≤ pindex.validLevel) : pindex.Received :=
  ⟨checked, (ready.coupled hash pindex found).mpr checked⟩

variable {leaf : Uint256}

lemma Ready.walk_clean_iff (ready : Ready t) {pindexNew : CBlockIndex}
    (atLeaf : t.mapBlockIndex.lookup leaf = some pindexNew) (received : pindexNew.Received)
    (found : t.mapBlockIndex.lookup hash = some pindex) :
    walkAncestry t.pindexTip leaf (t.ancestry (some hash)) = .clean ↔ Eligible t.mapBlockIndex hash := by
  refine ready.planted.linked.induction (motive := fun hash _ =>
    walkAncestry t.pindexTip leaf (t.ancestry (some hash)) = .clean ↔ Eligible t.mapBlockIndex hash) ?_ found
  intro hash pindex found ih
  rw [ancestry, chain_of_lookup ready.planted.linked found, walkAncestry]
  by_cases invalid : pindex.isInvalid = true
  · rw [Eligible, lineage_iff ready.planted.linked found]
    simp [invalid]
  rw [if_neg invalid]
  rw [Bool.not_eq_true] at invalid
  by_cases anchor : t.Anchor hash pindex
  · -- the walk stops here, and what it has not looked at is known to be fine
    have eligible := (eligible_iff _ _).mpr ⟨ready.stocked _ _ found anchor, ready.unfailed _ _ found anchor invalid⟩
    refine ⟨fun _ => eligible, fun _ => ?_⟩
    rcases anchor with tip | onMain | root
    · rw [if_pos tip]
    · simp [onMain]
    · simp [root]
  · have notTip : t.pindexTip ≠ some hash := fun tip => anchor (.inl tip)
    have offMain : ¬ pindex.isOnMainChain = true := fun onMain => anchor (.inr (.inl onMain))
    have notRoot : pindex.nHeight ≠ 0 := fun root => anchor (.inr (.inr root))
    rw [if_neg notTip, if_neg offMain, if_neg notRoot]
    by_cases missing : hash ≠ leaf ∧ (!pindex.haveData) = true
    · have noData : pindex.haveData = false := by simpa using missing.2
      rw [if_pos missing, Eligible, lineage_iff ready.planted.linked found]
      simp [CBlockIndex.Received, noData]
    · have here : pindex.Received := by
        by_cases isLeaf : hash = leaf
        · subst isLeaf
          rwa [Option.some.inj (found.symm.trans atLeaf)]
        · have hasData : pindex.haveData = true := by
            by_contra none
            exact missing ⟨isLeaf, by simpa using none⟩
          exact ready.received found ((ready.coupled _ _ found).mp hasData)
      rw [if_neg missing, Eligible, lineage_iff ready.planted.linked found]
      cases link : pindex.pprev with
      | none => simp [walkAncestry, here, invalid]
      | some above =>
        obtain ⟨upper, at_, -⟩ := ready.planted.linked hash pindex above found link
        have parentClean := ih above upper link at_
        rw [ancestry] at parentClean
        simp [parentClean, here, invalid]

structure Agree (a b : CBlockIndex) : Prop where
  header : a.header = b.header
  pprev : a.pprev = b.pprev
  pnext : a.pnext = b.pnext
  height : a.nHeight = b.nHeight
  work : a.nChainWork = b.nChainWork
  sequence : a.nSequenceId = b.nSequenceId
  address : a.address = b.address
  checked : blockValidTransactions ≤ a.validLevel ↔ blockValidTransactions ≤ b.validLevel
  data : a.haveData = b.haveData

variable {a b : CBlockIndex}

lemma Agree.symm (agree : Agree a b) : Agree b a :=
  ⟨agree.header.symm, agree.pprev.symm, agree.pnext.symm, agree.height.symm, agree.work.symm, agree.sequence.symm,
    agree.address.symm, agree.checked.symm, agree.data.symm⟩

lemma Agree.received_iff (agree : Agree a b) : a.Received ↔ b.Received := by
  rw [CBlockIndex.Received, CBlockIndex.Received, agree.checked, agree.data]

def SameTree (index other : BlockMap) : Prop :=
  ∀ hash, Option.Rel Agree (other.lookup hash) (index.lookup hash)

variable {index other : BlockMap}

lemma sameTree_of_unflagged
    (equal : ∀ hash, (other.lookup hash).map CBlockIndex.unflagged = (index.lookup hash).map CBlockIndex.unflagged) :
    SameTree index other := by
  intro hash
  have here := equal hash
  cases new : other.lookup hash <;> cases old :
    index.lookup hash <;> simp only [new, old, Option.map_some, Option.map_none] at here
  · exact .none
  · cases here
  · cases here
  · rename_i a b
    have unflagged := Option.some.inj here
    obtain ⟨header, pprev, pnext, height, work, -, sequence, -, address⟩ := CBlockIndex.mk.inj unflagged
    refine .some ⟨header, pprev, pnext, height, work, sequence, address, ?_, ?_⟩
    · rw [← a.validLevel_unflagged, unflagged, b.validLevel_unflagged]
    · rw [← a.haveData_unflagged, unflagged, b.haveData_unflagged]

section

variable (same : SameTree index other)

include same

lemma SameTree.symm : SameTree other index := by
  intro hash
  have here := same hash
  generalize index.lookup hash = old, other.lookup hash = new at here ⊢
  cases here with
  | some agree => exact .some agree.symm
  | none => exact .none

lemma SameTree.lookup
    (found : index.lookup hash = some pindex) : ∃ changed, other.lookup hash = some changed ∧ Agree changed pindex := by
  have here := same hash
  rw [found] at here
  generalize at_ : other.lookup hash = now at here
  cases here with
  | some agree => exact ⟨_, rfl, agree⟩

lemma SameTree.lookup_none (missing : index.lookup hash = none) : other.lookup hash = none := by
  cases found : other.lookup hash with
  | none => rfl
  | some pindex =>
    obtain ⟨old, at_, -⟩ := same.symm.lookup found
    rw [missing] at at_
    cases at_

lemma SameTree.planted (planted : Planted index) : Planted other := by
  refine ⟨?_, ?_, ?_, ?_⟩
  · intro hash pindex above found link
    obtain ⟨old, at_, agree⟩ := same.symm.lookup found
    obtain ⟨upper, atUpper, less⟩ := planted.linked hash old above at_ (agree.pprev.trans link)
    obtain ⟨now, atNow, agreeUpper⟩ := same.lookup atUpper
    refine ⟨now, atNow, ?_⟩
    dsimp only at less ⊢
    rwa [agreeUpper.work, ← agree.work]
  · intro a b left right atA atB equalAddress
    obtain ⟨oldLeft, oldA, agreeA⟩ := same.symm.lookup atA
    obtain ⟨oldRight, oldB, agreeB⟩ := same.symm.lookup atB
    exact planted.addresses a b oldLeft oldRight oldA oldB
      (agreeA.address.trans (equalAddress.trans agreeB.address.symm))
  · intro a b left right atA atB equalWork
    obtain ⟨oldLeft, oldA, agreeA⟩ := same.symm.lookup atA
    obtain ⟨oldRight, oldB, agreeB⟩ := same.symm.lookup atB
    have outputs := planted.outputs a b oldLeft oldRight oldA oldB
      (agreeA.work.trans (equalWork.trans agreeB.work.symm))
    rwa [agreeA.header, agreeB.header] at outputs
  · intro hash pindex found
    obtain ⟨old, at_, agree⟩ := same.symm.lookup found
    exact agree.height ▸ planted.heights hash old at_

end

lemma Agree.workComparator_eq {a' b' : CBlockIndex} (left : Agree a' a) (right : Agree b' b) :
    workComparator a' b' = workComparator a b := by
  unfold workComparator
  rw [left.header, left.work, left.sequence, left.address, right.header, right.work, right.sequence, right.address]

lemma SameTree.precedes_eq (same : SameTree index other) : precedes other = precedes index := by
  funext a b
  have atA := same a
  have atB := same b
  unfold precedes
  generalize index.lookup a = oldA, other.lookup a = newA at atA
  generalize index.lookup b = oldB, other.lookup b = newB at atB
  cases atA with
  | none => rfl
  | some left =>
    cases atB with
    | none => rfl
    | some right => exact left.workComparator_eq right

lemma hasChildren_iff (hash : Uint256) : hasChildren index hash = true ↔
    ∃ child pindex, index.lookup child = some pindex ∧ pindex.pprev = some hash := by
  simp only [hasChildren, any_eq_true, Option.any_eq_true, decide_eq_true_eq]
  constructor
  · rintro ⟨child, -, pindex, found, link⟩
    exact ⟨child, pindex, found, link⟩
  · rintro ⟨child, pindex, found, link⟩
    exact ⟨child, mem_keys_iff.mpr ⟨pindex, found⟩, pindex, found, link⟩

lemma SameTree.hasChildren_of (same : SameTree index other) (parent : hasChildren other hash = true) :
    hasChildren index hash = true := by
  obtain ⟨child, pindex, found, link⟩ := (hasChildren_iff hash).mp parent
  obtain ⟨old, at_, agree⟩ := same.symm.lookup found
  exact (hasChildren_iff hash).mpr ⟨child, old, at_, agree.pprev.trans link⟩

lemma SameTree.stocked_iff (same : SameTree index other) (planted : Planted index)
    (found : index.lookup hash = some pindex) : Stocked index hash ↔ Stocked other hash := by
  refine lineage_congr planted.linked (same.planted planted).linked (fun _ => True)
    (fun _ _ _ _ _ _ => trivial) ?_ found trivial
  intro key value _ at_
  obtain ⟨now, atNow, agree⟩ := same.lookup at_
  exact ⟨now, atNow, agree.pprev, agree.received_iff.symm⟩

variable {after : BlockTree}

/-- A tree with other status flags is ready again if the flags are consistent on the active chain and
eligible blocks are not cut off from their leaves. -/
lemma Ready.of_sameTree (ready : Ready t) (same : SameTree t.mapBlockIndex after.mapBlockIndex)
    (sameTip : after.pindexTip = t.pindexTip)
    (unfailed : ∀ hash pindex, after.mapBlockIndex.lookup hash = some pindex → after.Anchor hash pindex →
      pindex.isInvalid = false → Unfailed after.mapBlockIndex hash)
    (fruitful : ∀ hash, Eligible after.mapBlockIndex hash → hasChildren after.mapBlockIndex hash = true →
      ∃ child pindex, after.mapBlockIndex.lookup child = some pindex ∧ pindex.pprev = some hash ∧
        Eligible after.mapBlockIndex child) : Ready after := by
  refine ⟨same.planted ready.planted, ?_, ?_, ?_, unfailed, fruitful⟩
  · intro hash tip
    obtain ⟨pindex, found⟩ := ready.tip_indexed hash (sameTip ▸ tip)
    obtain ⟨now, atNow, -⟩ := same.lookup found
    exact ⟨now, atNow⟩
  · intro hash pindex found
    obtain ⟨old, at_, agree⟩ := same.symm.lookup found
    rw [← agree.data, ← agree.checked]
    exact ready.coupled hash old at_
  · intro hash pindex found anchor
    obtain ⟨old, at_, agree⟩ := same.symm.lookup found
    have oldAnchor : t.Anchor hash old := by
      rwa [Anchor, isOnMainChain, agree.pnext, agree.height, ← sameTip]
    exact (same.stocked_iff ready.planted at_).mp (ready.stocked hash old at_ oldAnchor)

lemma SameTree.eligible_iff (same : SameTree index other) (planted : Planted index)
    (unfailed : ∀ hash, Unfailed index hash ↔ Unfailed other hash) (hash : Uint256) :
    Eligible index hash ↔ Eligible other hash := by
  rw [BlockTree.eligible_iff, BlockTree.eligible_iff, unfailed hash]
  refine and_congr_left fun ⟨⟨now, atNow⟩, _⟩ => ?_
  obtain ⟨old, at_, -⟩ := same.symm.lookup atNow
  exact same.stocked_iff planted at_

lemma IsBest.congr (sameOrder : precedes other = precedes index)
    (sameEligible : ∀ hash, Eligible index hash ↔ Eligible other hash) (answer : Option Uint256) :
    IsBest index answer ↔ IsBest other answer := by
  cases answer with
  | none => exact forall_congr' fun hash => not_congr (sameEligible hash)
  | some best =>
    rw [IsBest, IsBest, sameOrder, sameEligible best]
    exact and_congr_right fun _ => forall_congr' fun hash => by rw [sameEligible hash]

lemma sameTree_failLeaf (t : BlockTree) (leaf : Uint256) :
    SameTree t.mapBlockIndex (t.failLeaf leaf).mapBlockIndex := by
  refine sameTree_of_unflagged fun hash => ?_
  rw [failLeaf, lookup_modify]
  split
  · cases t.mapBlockIndex.lookup hash with
    | none => rfl
    | some pindex =>
      simp only [Option.map_some, Option.some.injEq]
      split
      · rfl
      · exact unflagged_raise rfl pindex
  · rfl

lemma walkAncestry_invalid {tip : Option Uint256} {entries : List (Uint256 × CBlockIndex)}
    (failed : walkAncestry tip leaf entries = .invalidAncestor) : ∃ entry ∈ entries, entry.2.isInvalid = true := by
  induction entries with
  | nil => cases failed
  | cons entry rest ih =>
    by_cases invalid : entry.2.isInvalid = true
    · exact ⟨entry, mem_cons_self, invalid⟩
    · rw [walkAncestry, if_neg invalid] at failed
      -- every way out of the walk but the recursive call gives another verdict
      split at failed
      · cases failed
      split at failed
      · cases failed
      split at failed
      · cases failed
      split at failed
      · cases failed
      obtain ⟨later, member, invalidLater⟩ := ih failed
      exact ⟨later, mem_cons_of_mem _ member, invalidLater⟩

lemma unfailed_failLeaf_iff (planted : Planted t.mapBlockIndex)
    (failed : ¬ Unfailed t.mapBlockIndex leaf) (hash : Uint256) :
    Unfailed t.mapBlockIndex hash ↔ Unfailed (t.failLeaf leaf).mapBlockIndex hash := by
  have same := sameTree_failLeaf t leaf
  cases found : t.mapBlockIndex.lookup hash with
  | none => exact iff_of_false (not_lineage found) (not_lineage (same.lookup_none found))
  | some pindex =>
    refine planted.linked.induction (motive := fun hash _ =>
      Unfailed t.mapBlockIndex hash ↔ Unfailed (t.failLeaf leaf).mapBlockIndex hash) ?_ found
    intro hash pindex found ih
    by_cases isLeaf : hash = leaf
    · subst isLeaf
      refine ⟨fun unfailed => absurd unfailed failed, fun unfailed => ?_⟩
      have changed : (t.failLeaf hash).mapBlockIndex.lookup hash =
          some (if pindex.isInvalid then pindex else pindex.raise blockFailedChild) := by
        simp [failLeaf, found]
      have clean := ((lineage_iff (same.planted planted).linked changed).mp unfailed).1
      split at clean
      · simp_all
      · rw [isInvalid_raise _ (by decide)] at clean
        cases clean
    · have unchanged : (t.failLeaf leaf).mapBlockIndex.lookup hash = some pindex := by
        rw [failLeaf, lookup_modify_ne isLeaf, found]
      rw [Unfailed, Unfailed, lineage_iff planted.linked found, lineage_iff (same.planted planted).linked unchanged]
      refine and_congr_right fun _ => forall_congr' fun above => forall_congr' fun link => ?_
      obtain ⟨upper, at_, -⟩ := planted.linked hash pindex above found link
      exact ih above upper link at_

lemma Ready.failLeaf (ready : Ready t) (failed : ¬ Unfailed t.mapBlockIndex leaf) : Ready (t.failLeaf leaf) := by
  have same := sameTree_failLeaf t leaf
  have unfailedIff := unfailed_failLeaf_iff ready.planted failed
  have eligibleIff := same.eligible_iff ready.planted unfailedIff
  refine ready.of_sameTree same rfl ?_ ?_
  · intro hash pindex found anchor valid
    by_cases isLeaf : hash = leaf
    · subst isLeaf
      rw [BlockTree.failLeaf, lookup_modify_self] at found
      obtain ⟨old, -, rfl⟩ := Option.map_eq_some_iff.mp found
      split at valid
      · simp_all
      · rw [isInvalid_raise _ (by decide)] at valid
        cases valid
    · rw [BlockTree.failLeaf, lookup_modify_ne isLeaf] at found
      exact (unfailedIff hash).mp (ready.unfailed hash pindex found anchor valid)
  · intro hash eligible parent
    obtain ⟨child, pindex, found, link, eligibleChild⟩ :=
      ready.fruitful hash ((eligibleIff hash).mpr eligible) (same.hasChildren_of parent)
    obtain ⟨now, atNow, agree⟩ := same.lookup found
    exact ⟨child, now, atNow, agree.pprev.trans link, (eligibleIff child).mp eligibleChild⟩

variable {rest : List Uint256}

lemma Covers.tail (covers : Covers t (hash :: rest))
    (ineligible : ¬ Eligible t.mapBlockIndex hash) : Covers t rest := by
  refine ⟨(pairwise_cons.mp covers.sorted).2, fun other member => covers.checked other (mem_cons_of_mem _ member), ?_⟩
  intro other eligible
  obtain ⟨best, member, eligibleBest, notBefore⟩ := covers.covering other eligible
  rcases mem_cons.mp member with rfl | later
  · exact absurd eligibleBest ineligible
  · exact ⟨best, later, eligibleBest, notBefore⟩

variable {candidates : List Uint256}

lemma Covers.of_sameTree (covers : Covers t candidates) (same : SameTree t.mapBlockIndex after.mapBlockIndex)
    (sameEligible : ∀ hash, Eligible t.mapBlockIndex hash ↔ Eligible after.mapBlockIndex hash) :
    Covers after candidates := by
  refine ⟨?_, ?_, ?_⟩
  · rw [same.precedes_eq]
    exact covers.sorted
  · intro hash member
    obtain ⟨pindex, found, level⟩ := covers.checked hash member
    obtain ⟨now, atNow, agree⟩ := same.lookup found
    exact ⟨now, atNow, agree.checked.mpr level⟩
  · intro hash eligible
    obtain ⟨best, member, eligibleBest, notBefore⟩ := covers.covering hash ((sameEligible hash).mpr eligible)
    exact ⟨best, member, (sameEligible best).mp eligibleBest, by rwa [same.precedes_eq]⟩

lemma Covers.head_first (planted : Planted t.mapBlockIndex)
    (covers : Covers t (hash :: rest)) {other : Uint256} (eligible : Eligible t.mapBlockIndex other) :
    precedes t.mapBlockIndex other hash = false := by
  obtain ⟨best, member, eligibleBest, notBefore⟩ := covers.covering other eligible
  rcases mem_cons.mp member with rfl | later
  · exact notBefore
  · have headFirst := (pairwise_cons.mp covers.sorted).1 best later
    obtain ⟨pindex, found, -⟩ := covers.checked hash mem_cons_self
    rw [Bool.eq_false_iff]
    intro before
    have := planted.strict.trans other hash best eligible.1 ⟨pindex, found⟩ eligibleBest.1 before headFirst
    rw [notBefore] at this
    cases this

/-- One search: the answer is right, and the tree stays fit for the next one. -/
lemma findMostWorkFrom_spec (ready : Ready t) (covers : Covers t candidates) :
    IsBest t.mapBlockIndex (t.findMostWorkFrom candidates).1 ∧ Ready (t.findMostWorkFrom candidates).2 ∧
    Covers (t.findMostWorkFrom candidates).2 (t.findMostWorkFrom candidates).2.setBlockIndexCandidates := by
  induction candidates generalizing t with
  | nil =>
    refine ⟨fun hash eligible => ?_, ?_, ?_⟩
    · obtain ⟨best, member, -⟩ := covers.covering hash eligible
      cases member
    · exact ⟨ready.planted, ready.tip_indexed, ready.coupled, ready.stocked, ready.unfailed, ready.fruitful⟩
    · exact ⟨covers.sorted, covers.checked, covers.covering⟩
  | cons hash rest ih =>
    obtain ⟨pindex, found, level⟩ := covers.checked hash mem_cons_self
    have received := ready.received found level
    have cleanIff := ready.walk_clean_iff found received found
    unfold findMostWorkFrom
    cases answer : t.verdict hash with
    | clean =>
      have eligible := cleanIff.mp answer
      refine ⟨⟨eligible, fun other eligibleOther => covers.head_first ready.planted eligibleOther⟩, ?_, ?_⟩
      · exact ⟨ready.planted, ready.tip_indexed, ready.coupled, ready.stocked, ready.unfailed, ready.fruitful⟩
      · exact ⟨covers.sorted, covers.checked, covers.covering⟩
    | missingData =>
      have ineligible : ¬ Eligible t.mapBlockIndex hash := fun eligible => by
        rw [← cleanIff] at eligible
        rw [verdict, eligible] at answer
        cases answer
      exact ih ready (covers.tail ineligible)
    | invalidAncestor =>
      have failed : ¬ Unfailed t.mapBlockIndex hash := by
        obtain ⟨entry, member, invalid⟩ := walkAncestry_invalid answer
        intro unfailed
        rw [unfailed.2 entry member] at invalid
        cases invalid
      have ineligible : ¬ Eligible t.mapBlockIndex hash := fun eligible => failed ((eligible_iff _ _).mp eligible).2
      have same := sameTree_failLeaf t hash
      have eligibleIff := same.eligible_iff ready.planted (unfailed_failLeaf_iff ready.planted failed)
      obtain ⟨right, readyAfter, coversAfter⟩ :=
        ih (ready.failLeaf failed) ((covers.tail ineligible).of_sameTree same eligibleIff)
      refine ⟨?_, readyAfter, coversAfter⟩
      rw [IsBest.congr same.precedes_eq eligibleIff]
      exact right

lemma Ready.eligible_leaf (ready : Ready t) (eligible : Eligible t.mapBlockIndex hash) :
    ∃ leaf, Eligible t.mapBlockIndex leaf ∧ hasChildren t.mapBlockIndex leaf = false ∧
      precedes t.mapBlockIndex hash leaf = false := by
  classical
  -- the eligible block of most work among `hash` and those with more work than it
  let work (key : Uint256) : Nat := ((t.mapBlockIndex.lookup key).map fun pindex => pindex.nChainWork.toNat).getD 0
  have workAt : ∀ key pindex, t.mapBlockIndex.lookup key = some pindex → work key = pindex.nChainWork.toNat := by
    intro key pindex found
    simp [work, found]
  let better := t.mapBlockIndex.keys.toFinset.filter fun key =>
    Eligible t.mapBlockIndex key ∧ (key = hash ∨ work hash < work key)
  have mem_better : ∀ key, key ∈ better ↔ Eligible t.mapBlockIndex key ∧ (key = hash ∨ work hash < work key) := by
    intro key
    rw [Finset.mem_filter, mem_toFinset]
    exact and_iff_right_of_imp fun ⟨eligibleKey, _⟩ => mem_keys_iff.mpr eligibleKey.1
  obtain ⟨leaf, member, most⟩ := better.exists_max_image work ⟨hash, (mem_better hash).mpr ⟨eligible, .inl rfl⟩⟩
  obtain ⟨eligibleLeaf, position⟩ := (mem_better leaf).mp member
  obtain ⟨here, found⟩ := eligible.1
  obtain ⟨there, foundLeaf⟩ := eligibleLeaf.1
  refine ⟨leaf, eligibleLeaf, ?_, ?_⟩
  · rw [Bool.eq_false_iff]
    intro parent
    obtain ⟨child, pindex, at_, link, eligibleChild⟩ := ready.fruitful leaf eligibleLeaf parent
    obtain ⟨upper, atUpper, less⟩ := ready.planted.linked child pindex leaf at_ link
    have more : work leaf < work child := by
      rw [workAt leaf upper atUpper, workAt child pindex at_]
      exact less
    have above : work hash < work child := by
      rcases position with rfl | greater
      · exact more
      · exact greater.trans more
    exact absurd (most child ((mem_better child).mpr ⟨eligibleChild, .inr above⟩)) (not_le.mpr more)
  · rcases position with rfl | greater
    · exact ready.planted.strict.irrefl leaf
    · rw [workAt hash here found, workAt leaf there foundLeaf] at greater
      rw [precedes_of_lookup found foundLeaf, Bool.eq_false_iff, Ne, workComparator_iff]
      omega

lemma Ready.recomputeCandidates (ready : Ready t) :
    Ready t.recomputeCandidates ∧ Covers t.recomputeCandidates t.recomputeCandidates.setBlockIndexCandidates := by
  refine ⟨⟨ready.planted, ready.tip_indexed, ready.coupled, ready.stocked, ready.unfailed, ready.fruitful⟩, ?_⟩
  let leaves := t.mapBlockIndex.keys.filter (activatableLeaf t.mapBlockIndex)
  have indexed : ∀ hash ∈ leaves, ∃ pindex, t.mapBlockIndex.lookup hash = some pindex :=
    fun hash member => mem_keys_iff.mp (mem_filter.mp member).1
  obtain ⟨sorted, members⟩ := OrderedSet.foldl_insert ready.planted.strict indexed (by simp) List.Pairwise.nil
  refine ⟨sorted, ?_, ?_⟩
  · intro hash member
    have leaf := ((members hash).mp member).resolve_right not_mem_nil
    have activatable := (Bool.and_eq_true _ _ ▸ (mem_filter.mp leaf).2 : _ ∧ _).2
    obtain ⟨pindex, found, candidate⟩ := (Option.any_eq_true _ _).mp activatable
    exact ⟨pindex, found, of_decide_eq_true (Bool.and_eq_true _ _ ▸ candidate : _ ∧ _).2⟩
  · intro hash eligible
    obtain ⟨leaf, eligibleLeaf, childless, notBefore⟩ := ready.eligible_leaf eligible
    obtain ⟨pindex, found⟩ := eligibleLeaf.1
    obtain ⟨received, valid⟩ := ((lineage_iff ready.planted.linked found).mp eligibleLeaf).1
    refine ⟨leaf, (members leaf).mpr (.inl (mem_filter.mpr ⟨mem_keys_iff.mpr ⟨pindex, found⟩, ?_⟩)), eligibleLeaf,
      notBefore⟩
    simp [activatableLeaf, childless, found, isBlockACandidateForActivation, valid, received.1]

end BlockTree

/-! The order of the candidate set. `std::set` needs a strict weak ordering; the comparator is one on
blocks that agree on carrying a VDF output, and on mixed sets as long as no block without an output lies,
by sequence number and address, between two blocks whose outputs say the opposite. -/

open OptionalKey

namespace CBlockIndex

def output (pindex : CBlockIndex) : Option Nat :=
  if pindex.header.vdfOutput.isNull then none else some pindex.header.vdfOutput.toNat

def arrival (pindex : CBlockIndex) : Nat ×ₗ Nat := toLex (pindex.nSequenceId.toNat, pindex.address)

end CBlockIndex

lemma workComparator_iff_before (a b : CBlockIndex) : workComparator a b = true ↔
    before (fun pindex => pindex.nChainWork.toNat) output arrival a b := by
  rw [workComparator_iff, before]
  unfold tiebreak output arrival
  simp only [Prod.Lex.toLex_lt_toLex]
  cases a.header.vdfOutput.isNull <;> cases b.header.vdfOutput.isNull <;> simp
  split <;> omega

/-- `absent` carries no output and stands, by sequence number and address, not after `low` and not before
`high`, although `low` has the lower output; all three have the same work. -/
def Straddling (low absent high : CBlockIndex) : Prop :=
  low.nChainWork = absent.nChainWork ∧ absent.nChainWork = high.nChainWork ∧
    absent.header.vdfOutput.isNull = true ∧ low.header.vdfOutput.isNull = false ∧ high.header.vdfOutput.isNull = false ∧
    hashLessThan low.header.vdfOutput high.header.vdfOutput = true ∧
    absent.arrival ≤ low.arrival ∧ high.arrival ≤ absent.arrival

lemma straddling_iff (low absent high : CBlockIndex) : Straddling low absent high ↔
    OptionalKey.Straddles (fun pindex => pindex.nChainWork.toNat) output arrival low absent high := by
  have output_none : absent.output = none ↔ absent.header.vdfOutput.isNull = true := by simp [output]
  have output_some : ∀ (pindex : CBlockIndex) (x : Nat), pindex.output = some x ↔
      pindex.header.vdfOutput.isNull = false ∧ pindex.header.vdfOutput.toNat = x := by
    intro pindex x
    cases null : pindex.header.vdfOutput.isNull <;> simp [output, null]
  rw [Straddling, hashLessThan_iff]
  constructor
  · rintro ⟨lowAbsent, absentHigh, missing, atLow, atHigh, less, after, ahead⟩
    exact ⟨⟨congrArg Uint256.toNat lowAbsent, congrArg Uint256.toNat absentHigh⟩, output_none.mpr missing,
      ⟨_, _, (output_some low _).mpr ⟨atLow, rfl⟩, (output_some high _).mpr ⟨atHigh, rfl⟩, less⟩, after, ahead⟩
  · rintro ⟨⟨lowAbsent, absentHigh⟩, missing, ⟨x, y, atLow, atHigh, less⟩, after, ahead⟩
    obtain ⟨lowSome, rfl⟩ := (output_some low x).mp atLow
    obtain ⟨highSome, rfl⟩ := (output_some high y).mp atHigh
    exact ⟨Uint256.toNat_injective lowAbsent, Uint256.toNat_injective absentHigh, output_none.mp missing,
      lowSome, highSome, less,
      after, ahead⟩

/-- The comparator is a strict weak ordering on a set of blocks exactly if no block of the set straddles. -/
theorem workComparator_strictWeakOn_iff (blocks : Set CBlockIndex) :
    StrictWeakOn (fun a b => workComparator a b = true) blocks ↔
      ∀ low ∈ blocks, ∀ absent ∈ blocks, ∀ high ∈ blocks, ¬ Straddling low absent high := by
  rw [funext₂ fun a b => propext (workComparator_iff_before a b), strictWeakOn_iff]
  simp only [straddling_iff]

def tiedBlock (vdfOutput : Nat) (nSequenceId : UInt32) : CBlockIndex where
  header := ⟨4, .null, .null, 0, 0, 0, .ofNat vdfOutput, .null⟩
  pprev := none
  pnext := none
  nHeight := 1
  nChainWork := .ofNat 1
  nStatus := 0
  nSequenceId := nSequenceId
  nVersion := 4
  address := nSequenceId.toNat

theorem workComparator_circle : workComparator (tiedBlock 7 1) (tiedBlock 0 2) = true ∧
    workComparator (tiedBlock 0 2) (tiedBlock 5 3) = true ∧ workComparator (tiedBlock 5 3) (tiedBlock 7 1) = true ∧
    ¬ StrictWeakOn (fun a b => workComparator a b = true) Set.univ := by
  have first : workComparator (tiedBlock 7 1) (tiedBlock 0 2) = true := by decide
  have second : workComparator (tiedBlock 0 2) (tiedBlock 5 3) = true := by decide
  have third : workComparator (tiedBlock 5 3) (tiedBlock 7 1) = true := by decide
  refine ⟨first, second, third, fun weak => ?_⟩
  have around := weak.trans _ trivial _ trivial _ trivial first second
  exact weak.asymm _ trivial _ trivial around third

end Dilithion
