import Dilithion.Chain.CheckpointSafety

/-! Headers in the block index. `ProcessNewHeader` of the chain selector stores the entry of a header
whose block has not arrived, and makes room for it by `EvictLowestWorkNotOnBestChain` when the index is
full. The map is walked in the order of its keys.

The index is closed when every entry but the genesis block has its parent in it, one height lower and with
the work that the block adds to. Adding blocks and headers keeps this as far as their entries say so;
eviction keeps it as long as the entry it picks has no child, and never touches the active chain. -/

namespace Dilithion

open Lib

namespace CBlockIndex

def blockValidHeader : UInt32 := 1

def ofHeader (header : CBlockHeader) (pprev : Option Uint256) (nHeight : Int)
    (nChainWork : Uint256) (nSequenceId : UInt32)
    (address : Nat) : CBlockIndex where
  header := header
  pprev := pprev
  pnext := none
  nHeight := nHeight
  nChainWork := nChainWork
  nStatus := blockValidHeader
  nSequenceId := nSequenceId
  nVersion := header.nVersion
  address := address

def getBlockProof (pindex : CBlockIndex) : Uint256 := computeChainWork pindex.header.nBits

end CBlockIndex

namespace BlockTree

variable (t : BlockTree)

def entriesInOrder : List (Uint256 × CBlockIndex) :=
  (t.mapBlockIndex.keys.foldl (fun order hash => OrderedSet.insert Uint256.less hash order) []).filterMap fun hash =>
    (t.getBlockIndex hash).map (hash, ·)

def offChain : List (Uint256 × CBlockIndex) :=
  t.entriesInOrder.filter fun entry => decide (entry.1 ∉ t.activeChain)

def lowestWork : Option (Uint256 × CBlockIndex) :=
  t.offChain.foldl (fun worst entry =>
    match worst with
    | none => some entry
    | some lowest =>
      if chainWorkGreaterThan lowest.2.nChainWork entry.2.nChainWork then some entry else some lowest) none

def evictLowestWorkNotOnBestChain : Bool × BlockTree :=
  match t.lowestWork with
  | none => (false, t)
  | some (worst, _) => (true, { t with
      setBlockIndexCandidates := OrderedSet.erase (precedes t.mapBlockIndex) worst t.setBlockIndexCandidates
      mapBlockIndex := t.mapBlockIndex.erase worst })

/-- The index has reached the cap of the chain parameters, if there are any and they set one. -/
def full (nMapBlockIndexCap : Option Int) : Bool :=
  nMapBlockIndexCap.any fun (cap : Int) => decide (0 < cap) && decide (cap ≤ t.mapBlockIndex.keys.length)

def placeHeader (hash : Uint256) (header : CBlockHeader) (nSequenceId : UInt32) (address : Nat) :
    Option (Bool × BlockTree) :=
  let proof := CBlockIndex.computeChainWork header.nBits
  if header.hashPrevBlock.isNull then
    (t.addBlockIndex hash (.ofHeader header none 0 proof nSequenceId address)).map (true, ·)
  else match t.getBlockIndex header.hashPrevBlock with
    | none => some (false, t)
    | some pprev =>
      if pprev.isInvalid then some (false, t)
      else (t.addBlockIndex hash (.ofHeader header (some header.hashPrevBlock) (pprev.nHeight + 1)
        (CBlockIndex.addChainWork pprev.nChainWork proof) nSequenceId address)).map (true, ·)

/-- `ProcessNewHeader`; the sequence id is the next one of the counter of the process. -/
def processNewHeader (H : HashFunctions) (nMapBlockIndexCap : Option Int) (t : BlockTree) (header : CBlockHeader)
    (nSequenceId : UInt32) (address : Nat) : Option (Bool × BlockTree) :=
  let hash := header.getHash H
  if (t.getBlockIndex hash).isSome then some (true, t)
  else if t.full nMapBlockIndexCap then
    match t.evictLowestWorkNotOnBestChain with
    | (false, t) => some (false, t)
    | (true, t) => t.placeHeader hash header nSequenceId address
  else t.placeHeader hash header nSequenceId address

end BlockTree

namespace BlockTree

open CBlockIndex List Option AList

variable {t u : BlockTree}

/-- The entry off the active chain with the least work, and of these the first in the order of the map. -/
def IsWorst (t : BlockTree) (hash : Uint256) : Prop :=
  ∃ pindex, t.mapBlockIndex.lookup hash = some pindex ∧ hash ∉ t.activeChain ∧
    ∀ other entry, t.mapBlockIndex.lookup other = some entry → other ∉ t.activeChain → other ≠ hash →
      pindex.nChainWork.toNat < entry.nChainWork.toNat ∨
        pindex.nChainWork.toNat = entry.nChainWork.toNat ∧ hash.less other = true

lemma keysInOrder (keys : List Uint256) :
    let after := keys.foldl (fun order hash => OrderedSet.insert Uint256.less hash order) []
    (after.Pairwise fun a b => a.less b = true) ∧ ∀ hash, hash ∈ after ↔ hash ∈ keys := by
  obtain ⟨sorted, members⟩ := OrderedSet.foldl_insert Uint256.less_strict (fun (a : Uint256) (_ : a ∈ keys) => trivial)
    (fun (a : Uint256) (_ : a ∈ []) => trivial) .nil
  exact ⟨sorted, fun hash => (members hash).trans (or_iff_left not_mem_nil)⟩

lemma mem_entriesInOrder (entry : Uint256 × CBlockIndex) :
    entry ∈ t.entriesInOrder ↔ t.mapBlockIndex.lookup entry.1 = some entry.2 := by
  have members := (keysInOrder t.mapBlockIndex.keys).2
  unfold entriesInOrder
  rw [mem_filterMap]
  constructor
  · rintro ⟨hash, -, at_⟩
    obtain ⟨pindex, found, rfl⟩ := map_eq_some_iff.mp at_
    exact found
  · intro found
    refine ⟨entry.1, (members entry.1).mpr (Table.mem_keys_iff.mpr ⟨entry.2, found⟩), ?_⟩
    rw [getBlockIndex, found, map_some]

lemma sorted_entriesInOrder : t.entriesInOrder.Pairwise fun a b => a.1.less b.1 = true := by
  refine (keysInOrder t.mapBlockIndex.keys).1.filterMap _ fun a b less x atX y atY => ?_
  obtain ⟨_, -, rfl⟩ := map_eq_some_iff.mp atX
  obtain ⟨_, -, rfl⟩ := map_eq_some_iff.mp atY
  exact less

lemma mem_offChain (entry : Uint256 × CBlockIndex) :
    entry ∈ t.offChain ↔ t.mapBlockIndex.lookup entry.1 = some entry.2 ∧ entry.1 ∉ t.activeChain := by
  rw [offChain, mem_filter, mem_entriesInOrder, decide_eq_true_eq]

lemma lowestWork_eq : t.lowestWork = t.offChain.argmin fun entry => entry.2.nChainWork.toNat := by
  unfold lowestWork argmin
  congr 1
  funext worst entry
  cases worst with
  | none => rfl
  | some lowest => simp only [argAux, chainWorkGreaterThan_iff]

variable {hash : Uint256} {pindex : CBlockIndex}

lemma isWorst_of_lowestWork (picked : t.lowestWork = some (hash, pindex)) : t.IsWorst hash := by
  rw [lowestWork_eq] at picked
  obtain ⟨found, off⟩ := (mem_offChain _).mp (argmin_mem picked)
  refine ⟨pindex, found, off, fun other entry atOther offOther different => ?_⟩
  have member : (other, entry) ∈ t.offChain := (mem_offChain _).mpr ⟨atOther, offOther⟩
  rcases Nat.lt_or_eq_of_le (le_of_mem_argmin member picked) with less | equal
  · exact .inl less
  · refine .inr ⟨equal, ?_⟩
    rcases OrderedSet.argmin_first (sorted_entriesInOrder.filter _) picked member equal.ge with same | before
    · exact absurd (congrArg Prod.fst same) different
    · exact before

structure Continues (pindex above : CBlockIndex) : Prop where
  height : pindex.nHeight = above.nHeight + 1
  work : pindex.nChainWork = addChainWork above.nChainWork pindex.getBlockProof

/-- Every entry but the genesis block has its parent in the index, and continues it. -/
def Closed (genesis : Uint256) (t : BlockTree) : Prop :=
  ∀ hash pindex, t.mapBlockIndex.lookup hash = some pindex → hash ≠ genesis →
    ∃ parent above, pindex.pprev = some parent ∧ t.mapBlockIndex.lookup parent = some above ∧ Continues pindex above

structure Grounded (genesis : Uint256) (t : BlockTree) : Prop where
  closed : Closed genesis t
  root : ∀ pindex, t.mapBlockIndex.lookup genesis = some pindex → pindex.pprev = none
  tip : ∀ hash, t.pindexTip = some hash → ∃ pindex, t.mapBlockIndex.lookup hash = some pindex

variable {genesis : Uint256}

lemma Grounded.stepped (grounded : Grounded genesis t) : Stepped t.mapBlockIndex := by
  intro hash pindex parent found link
  by_cases here : hash = genesis
  · subst here
    cases (grounded.root pindex found).symm.trans link
  · obtain ⟨parent', above, link', at_, continues⟩ := grounded.closed hash pindex found here
    cases link.symm.trans link'
    exact ⟨above, at_, continues.height⟩

lemma Grounded.head_activeChain (grounded : Grounded genesis t) : t.activeChain.head? = t.pindexTip := by
  cases atTip : t.pindexTip with
  | none => simp [activeChain, atTip, ancestry]
  | some hash =>
    obtain ⟨pindex, found⟩ := grounded.tip hash atTip
    rw [activeChain_of_tip grounded.stepped atTip found]
    rfl

structure Undisturbed (t u : BlockTree) : Prop where
  tip : u.pindexTip = t.pindexTip
  chain : ∀ hash ∈ t.activeChain, ∀ pindex, t.mapBlockIndex.lookup hash = some pindex →
    ∃ entry, u.mapBlockIndex.lookup hash = some entry ∧ entry.pprev = pindex.pprev

lemma Undisturbed.path (undisturbed : Undisturbed t u) (above : List Uint256) {chain : List Uint256}
    (path : Path t.mapBlockIndex chain)
    (active : t.activeChain = above ++ chain) : Path u.mapBlockIndex chain := by
  induction chain generalizing above with
  | nil => trivial
  | cons hash rest ih =>
    obtain ⟨⟨pindex, found, link⟩, path⟩ := path
    obtain ⟨entry, at_, same⟩ := undisturbed.chain hash (active ▸ by simp) pindex found
    exact ⟨⟨entry, at_, same.trans link⟩, ih (above ++ [hash]) path (by rw [active, append_assoc]; rfl)⟩

lemma Undisturbed.refl (t : BlockTree) : Undisturbed t t := ⟨rfl, fun _ _ pindex found => ⟨pindex, found, rfl⟩⟩

lemma Undisturbed.activeChain_eq (undisturbed : Undisturbed t u) (grounded : Grounded genesis t)
    (groundedAfter : Grounded genesis u) :
    u.activeChain = t.activeChain := by
  have path := undisturbed.path [] (path_ancestry grounded.stepped t.pindexTip) rfl
  have same := path.ancestry_eq groundedAfter.stepped
  change (u.ancestry t.activeChain.head?).map Prod.fst = t.activeChain at same
  rwa [grounded.head_activeChain, ← undisturbed.tip] at same

lemma Undisturbed.trans {v : BlockTree} (first : Undisturbed t u) (second : Undisturbed u v)
    (same : u.activeChain = t.activeChain) :
    Undisturbed t v := by
  refine ⟨second.tip.trans first.tip, fun hash active pindex found => ?_⟩
  obtain ⟨entry, at_, link⟩ := first.chain hash active pindex found
  obtain ⟨last, atLast, linkLast⟩ := second.chain hash (same ▸ active) entry at_
  exact ⟨last, atLast, linkLast.trans link⟩

lemma Undisturbed.tip_stored (undisturbed : Undisturbed t u) (grounded : Grounded genesis t)
    (atTip : u.pindexTip = some hash) : ∃ pindex, u.mapBlockIndex.lookup hash = some pindex := by
  rw [undisturbed.tip] at atTip
  obtain ⟨pindex, found⟩ := grounded.tip hash atTip
  have active : hash ∈ t.activeChain := mem_of_mem_head? (grounded.head_activeChain.trans atTip)
  obtain ⟨entry, at_, -⟩ := undisturbed.chain hash active pindex found
  exact ⟨entry, at_⟩

def Childless (t : BlockTree) (hash : Uint256) : Prop :=
  ∀ child entry, t.mapBlockIndex.lookup child = some entry → entry.pprev ≠ some hash

lemma evict_cases (t : BlockTree) : (t.evictLowestWorkNotOnBestChain = (false, t)) ∨
    ∃ worst, t.IsWorst worst ∧ t.evictLowestWorkNotOnBestChain.1 = true ∧
      t.evictLowestWorkNotOnBestChain.2.pindexTip = t.pindexTip ∧
      t.evictLowestWorkNotOnBestChain.2.mapBlockIndex = t.mapBlockIndex.erase worst := by
  cases picked : t.lowestWork with
  | none => exact .inl (by simp only [evictLowestWorkNotOnBestChain, picked])
  | some worst =>
    refine .inr ⟨worst.1, isWorst_of_lowestWork picked, ?_, ?_, ?_⟩ <;>
      simp only [evictLowestWorkNotOnBestChain, picked]

lemma unknown_evict (unknown : t.getBlockIndex hash = none) :
    t.evictLowestWorkNotOnBestChain.2.getBlockIndex hash = none := by
  rcases evict_cases t with nothing | ⟨worst, -, -, -, index⟩
  · rwa [nothing]
  · rw [getBlockIndex, index]
    by_cases here : hash = worst
    · rw [here, lookup_erase]
    · rwa [lookup_erase_ne here]

lemma Grounded.evict (grounded : Grounded genesis t) (leaf : ∀ worst, t.IsWorst worst → t.Childless worst) :
    Grounded genesis t.evictLowestWorkNotOnBestChain.2 ∧ Undisturbed t t.evictLowestWorkNotOnBestChain.2 := by
  rcases evict_cases t with nothing | ⟨worst, isWorst, -, tip, index⟩
  · rw [nothing]
    exact ⟨grounded, .refl t⟩
  · have kept : ∀ {hash : Uint256}, hash ≠ worst →
        t.evictLowestWorkNotOnBestChain.2.mapBlockIndex.lookup hash = t.mapBlockIndex.lookup hash := by
      intro hash different
      rw [index, lookup_erase_ne different]
    have before : ∀ {hash : Uint256} {pindex : CBlockIndex},
        t.evictLowestWorkNotOnBestChain.2.mapBlockIndex.lookup hash = some pindex →
        t.mapBlockIndex.lookup hash = some pindex := by
      intro hash pindex found
      by_cases here : hash = worst
      · rw [index, here, lookup_erase] at found
        cases found
      · rwa [kept here] at found
    have undisturbed : Undisturbed t t.evictLowestWorkNotOnBestChain.2 := by
      refine ⟨tip, fun hash active pindex found => ?_⟩
      obtain ⟨-, -, off, -⟩ := isWorst
      exact ⟨pindex, (kept fun same => off (same ▸ active)).trans found, rfl⟩
    refine ⟨⟨fun hash pindex found notGenesis => ?_, fun pindex found => grounded.root pindex (before found),
      fun hash atTip => undisturbed.tip_stored grounded atTip⟩, undisturbed⟩
    · obtain ⟨parent, above, link, at_, continues⟩ := grounded.closed hash pindex (before found) notGenesis
      have different : parent ≠ worst := fun same => leaf worst isWorst hash pindex (before found) (same ▸ link)
      exact ⟨parent, above, link, (kept different).trans at_, continues⟩

/-- What an entry must say for `AddBlockIndex`: only the genesis block is without a parent, no entry is given
one later, and the work was built on the parent. -/
def Offers (genesis : Uint256) (t : BlockTree) (hash : Uint256) (pindex : CBlockIndex) : Prop :=
  match t.getBlockIndex hash with
  | some existing => pindex.pprev = none ∨ existing.pprev.isSome = true
  | none => (hash = genesis ↔ pindex.pprev = none) ∧ ∀ parent above, pindex.pprev = some parent →
      t.mapBlockIndex.lookup parent = some above →
      pindex.nChainWork = addChainWork above.nChainWork pindex.getBlockProof

lemma Grounded.addBlockIndex (grounded : Grounded genesis t)
    (offers : Offers genesis t hash pindex) (added : t.addBlockIndex hash pindex = some u) :
    Grounded genesis u ∧ Undisturbed t u := by
  have linked : ∀ existing, t.getBlockIndex hash = some existing → pindex.pprev = none ∨
      existing.pprev.isSome = true := by
    intro existing known
    simpa only [Offers, known] using offers
  obtain ⟨keeps, stems⟩ := addBlockIndex_grows linked added
  obtain ⟨tip, -, -, elsewhere⟩ := addBlockIndex_lookup added
  have origin : ∀ key entry, u.mapBlockIndex.lookup key = some entry →
      (∃ old, t.mapBlockIndex.lookup key = some old ∧ entry.bare = old.bare) ∨ key = hash ∧
      t.getBlockIndex hash = none ∧ entry = pindex := by
    intro key entry found
    by_cases here : key = hash
    · exact (stems key entry found).imp_right (⟨here, ·⟩)
    · exact .inl ⟨entry, (elsewhere key here).symm.trans found, rfl⟩
  -- an entry that was there keeps its links and its work; the new one was offered as it must be
  have carried : ∀ {a b : CBlockIndex}, a.bare = b.bare →
      ∀ {above up : CBlockIndex}, up.bare = above.bare → Continues b above →
      Continues a up := by
    intro a b same above up sameUp continues
    have proof : a.getBlockProof = b.getBlockProof := by
      have header : a.header = b.header := (CBlockIndex.mk.inj same).1
      rw [getBlockProof, header, getBlockProof]
    refine ⟨?_, ?_⟩
    · rw [nHeight_of_bare same, nHeight_of_bare sameUp, continues.height]
    · rw [nChainWork_of_bare same, nChainWork_of_bare sameUp, proof, continues.work]
  have undisturbed : Undisturbed t u := by
    refine ⟨tip, fun key _ entry found => ?_⟩
    obtain ⟨new, atNew, same⟩ := keeps key entry found
    exact ⟨new, atNew, pprev_of_bare same⟩
  refine ⟨⟨fun key entry found notGenesis => ?_, fun entry found => ?_,
    fun key atTip => undisturbed.tip_stored grounded atTip⟩,
    undisturbed⟩
  · rcases origin key entry found with ⟨old, at_, same⟩ | ⟨rfl, unknown, rfl⟩
    · obtain ⟨parent, above, link, atParent, continues⟩ := grounded.closed key old at_ notGenesis
      obtain ⟨up, atUp, sameUp⟩ := keeps parent above atParent
      exact ⟨parent, up, (pprev_of_bare same).trans link, atUp, carried same sameUp continues⟩
    · simp only [Offers, unknown] at offers
      cases link : entry.pprev with
      | none => exact absurd (offers.1.mpr link) notGenesis
      | some parent =>
        obtain ⟨above, atParent, height⟩ := (addBlockIndex_new added unknown).2 parent link
        obtain ⟨up, atUp, sameUp⟩ := keeps parent above atParent
        exact ⟨parent, up, rfl, atUp, carried rfl sameUp ⟨height, offers.2 parent above link atParent⟩⟩
  · rcases origin genesis entry found with ⟨old, at_, same⟩ | ⟨rfl, unknown, rfl⟩
    · exact (pprev_of_bare same).trans (grounded.root old at_)
    · simp only [Offers, unknown] at offers
      exact offers.1.mp trivial

inductive IndexOp where
  | addBlockIndex (hash : Uint256) (pindex : CBlockIndex)
  | processNewHeader (header : CBlockHeader) (nSequenceId : UInt32) (address : Nat)
  | evictLowestWork

namespace IndexOp

/-- `none` where the node stops itself on an inconsistent entry. -/
def perform (H : HashFunctions) (cap : Option Int) (t : BlockTree) : IndexOp → Option BlockTree
  | .addBlockIndex hash pindex => t.addBlockIndex hash pindex
  | .processNewHeader header nSequenceId address => (t.processNewHeader H cap header nSequenceId address).map Prod.snd
  | .evictLowestWork => some t.evictLowestWorkNotOnBestChain.2

/-- When the operation keeps the index closed. A header that is new must name a predecessor unless it is the
genesis block, and what is evicted must not have a child. -/
def Safe (H : HashFunctions) (cap : Option Int) (genesis : Uint256) (t : BlockTree) : IndexOp → Prop
  | .addBlockIndex hash pindex => Offers genesis t hash pindex
  | .processNewHeader header _ _ => t.getBlockIndex (header.getHash H) = none →
      (header.getHash H = genesis ↔ header.hashPrevBlock.isNull = true) ∧
        (t.full cap = true → ∀ worst, t.IsWorst worst → t.Childless worst)
  | .evictLowestWork => ∀ worst, t.IsWorst worst → t.Childless worst

end IndexOp

lemma Grounded.placeHeader (grounded : Grounded genesis t) (unknown : t.getBlockIndex hash = none)
    {header : CBlockHeader} (rooted : hash = genesis ↔ header.hashPrevBlock.isNull = true)
    {nSequenceId : UInt32} {address : Nat}
    {stored : Bool} (placed : t.placeHeader hash header nSequenceId address = some (stored, u)) :
    Grounded genesis u ∧ Undisturbed t u := by
  have still : Grounded genesis t ∧ Undisturbed t t := ⟨grounded, .refl t⟩
  unfold BlockTree.placeHeader at placed
  split at placed
  next null =>
    obtain ⟨after, added, same⟩ := map_eq_some_iff.mp placed
    cases same
    refine grounded.addBlockIndex ?_ added
    simp only [Offers, unknown]
    exact ⟨iff_of_true (rooted.mpr null) rfl, fun parent above link => by cases link⟩
  next named =>
    split at placed
    · cases placed
      exact still
    next pprev atParent =>
      split at placed
      · cases placed
        exact still
      · obtain ⟨after, added, same⟩ := map_eq_some_iff.mp placed
        cases same
        refine grounded.addBlockIndex ?_ added
        simp only [Offers, unknown]
        refine ⟨iff_of_false (mt rooted.mp named) (by simp [ofHeader]), fun parent above link found => ?_⟩
        cases link
        cases atParent.symm.trans found
        rfl

variable {H : HashFunctions} {cap : Option Int}

lemma IndexOp.grounded {op : IndexOp} (grounded : Grounded genesis t)
    (safe : op.Safe H cap genesis t) (performed : op.perform H cap t = some u) :
    Grounded genesis u ∧ Undisturbed t u := by
  cases op with
  | addBlockIndex hash pindex => exact grounded.addBlockIndex safe performed
  | evictLowestWork =>
    cases performed
    exact grounded.evict safe
  | processNewHeader header nSequenceId address =>
    obtain ⟨⟨stored, after⟩, processed, rfl⟩ := map_eq_some_iff.mp performed
    unfold BlockTree.processNewHeader at processed
    dsimp only at processed
    split at processed
    · cases processed
      exact ⟨grounded, .refl t⟩
    next new =>
      have unknown : t.getBlockIndex (header.getHash H) = none := by simpa using new
      obtain ⟨rooted, leaf⟩ := safe unknown
      split at processed
      next isFull =>
        obtain ⟨groundedRoom, room⟩ := grounded.evict (leaf isFull)
        have unknownRoom : t.evictLowestWorkNotOnBestChain.2.getBlockIndex (header.getHash H) = none :=
          unknown_evict unknown
        generalize t.evictLowestWorkNotOnBestChain = evicted at processed groundedRoom room unknownRoom
        obtain ⟨made, between⟩ := evicted
        cases made with
        | false =>
          cases processed
          exact ⟨groundedRoom, room⟩
        | true =>
          obtain ⟨groundedAfter, placed⟩ := groundedRoom.placeHeader unknownRoom rooted processed
          exact ⟨groundedAfter, room.trans placed (room.activeChain_eq grounded groundedRoom)⟩
      · exact grounded.placeHeader unknown rooted processed

inductive IndexRun (H : HashFunctions) (cap : Option Int) (t : BlockTree) :
    List (BlockTree × IndexOp) → BlockTree → Prop
  | refl : IndexRun H cap t [] t
  | step {steps : List (BlockTree × IndexOp)} {u v : BlockTree} {op : IndexOp} : IndexRun H cap t steps u →
      op.perform H cap u = some v → IndexRun H cap t ((u, op) :: steps) v

lemma IndexRun.grounded {steps : List (BlockTree × IndexOp)} (run : IndexRun H cap t steps u)
    (start : Grounded genesis t) (safe : ∀ step ∈ steps, step.2.Safe H cap genesis step.1) :
    Grounded genesis u ∧ Undisturbed t u := by
  induction run with
  | refl => exact ⟨start, .refl t⟩
  | step _ performed ih =>
    obtain ⟨grounded, undisturbed⟩ := ih fun step member => safe step (mem_cons_of_mem _ member)
    obtain ⟨groundedAfter, last⟩ := IndexOp.grounded grounded (safe _ mem_cons_self) performed
    exact ⟨groundedAfter, undisturbed.trans last (undisturbed.activeChain_eq start grounded)⟩

/-- After a run of safe operations the index is closed, and the active chain is the same and still in it. -/
theorem index_closed_of_run (H : HashFunctions) (cap : Option Int) (genesis : Uint256) (t u : BlockTree)
    (steps : List (BlockTree × IndexOp))
    (start : Grounded genesis t) (run : IndexRun H cap t steps u)
    (safe : ∀ step ∈ steps, step.2.Safe H cap genesis step.1) :
    Closed genesis u ∧ u.activeChain = t.activeChain ∧
    ∀ hash ∈ t.activeChain, (u.getBlockIndex hash).isSome = true := by
  obtain ⟨grounded, undisturbed⟩ := run.grounded start safe
  refine ⟨grounded.closed, undisturbed.activeChain_eq start grounded, fun hash active => ?_⟩
  obtain ⟨entry, member, rfl⟩ := mem_map.mp active
  have found := (descent_ancestry start.stepped t.pindexTip).stored entry member
  obtain ⟨after, at_, -⟩ := undisturbed.chain entry.1 active entry.2 found
  exact isSome_iff_exists.mpr ⟨after, at_⟩

def vdfHeader (hashPrevBlock : Uint256) (nTime : UInt32) : CBlockHeader where
  nVersion := 4
  hashPrevBlock := hashPrevBlock
  hashMerkleRoot := .null
  nTime := nTime
  nBits := 0x207fffff
  nNonce := 0
  vdfOutput := .null
  vdfProofHash := .null

def rootHash : Uint256 := .ofNat 0xd445a8e1979e25572d5cacc05d532fdb4faff472e3b6d7f3eb0f8eb06b37759
def branchHash : Uint256 := .ofNat 0xd98abec464d5e7ffeafd0a1bd5d3f17bfe2e52403c4bb470a27dcfec47fa4db9
def leafHash : Uint256 := .ofNat 0x17866626afff3815e49a7903e8ce9a68116c27530fc486d4d5c732cc6036b208
def rivalHash : Uint256 := .ofNat 0xb6c7623947f0b0822e1a39fdd40d35ccb573a719404b76ff3168f4452544d404

/-- A header on the genesis block, one on that header, and a rival of the first. -/
def headerHashes : HashFunctions := .ofTable
  [((vdfHeader .null 0).serializeHeader, rootHash), ((vdfHeader rootHash 1).serializeHeader, branchHash),
   ((vdfHeader branchHash 2).serializeHeader, leafHash), ((vdfHeader rootHash 3).serializeHeader, rivalHash)]

def rootTree : BlockTree where
  mapBlockIndex := AList.insert rootHash
    (.ofHeader (vdfHeader .null 0) none 0 (computeChainWork 0x207fffff) 0 0) ∅
  pindexTip := some rootHash
  setBlockIndexCandidates := []

lemma rootTree_grounded : Grounded rootHash rootTree := by
  have only : ∀ hash pindex, rootTree.mapBlockIndex.lookup hash = some pindex → hash = rootHash ∧ pindex.pprev = none :=
    Table.forall_lookup (fun hash (pindex : CBlockIndex) => hash = rootHash ∧ pindex.pprev = none) (by decide)
  refine ⟨fun hash pindex found notGenesis => absurd (only hash pindex found).1 notGenesis,
    fun pindex found => (only _ _ found).2, ?_⟩
  intro hash atTip
  cases atTip
  exact ⟨_, lookup_insert _⟩

/-- With a cap of two entries the rival takes the place of the first header, which has no child. -/
theorem index_closed_after_eviction : ∃ t u, IndexRun headerHashes (some 2) rootTree
      [(t, .processNewHeader (vdfHeader rootHash 3) 2 2), (rootTree, .processNewHeader (vdfHeader rootHash 1) 1 1)] u ∧
    (t.getBlockIndex branchHash).isSome = true ∧ u.getBlockIndex branchHash = none ∧
    (u.getBlockIndex rivalHash).isSome = true ∧
    Closed rootHash u ∧ u.activeChain = rootTree.activeChain ∧
    ∀ hash ∈ rootTree.activeChain, (u.getBlockIndex hash).isSome = true := by
  have ends : (IndexOp.perform headerHashes (some 2) rootTree (.processNewHeader (vdfHeader rootHash 1) 1 1)).any
      (fun t =>
      decide (t.activeChain = [rootHash] ∧ (t.getBlockIndex branchHash).isSome = true ∧
        ∀ entry ∈ t.mapBlockIndex.entries, entry.2.pprev = none ∨ entry.2.pprev = some rootHash) &&
      (IndexOp.perform headerHashes (some 2) t (.processNewHeader (vdfHeader rootHash 3) 2 2)).any fun u =>
        (u.getBlockIndex branchHash).isNone && (u.getBlockIndex rivalHash).isSome) = true := by
    decide
  obtain ⟨t, first, holds⟩ := (any_eq_true _ _).mp ends
  obtain ⟨shape, second⟩ := Bool.and_eq_true_iff.mp holds
  obtain ⟨active, stored, parents⟩ := of_decide_eq_true shape
  obtain ⟨u, second, gone⟩ := (any_eq_true _ _).mp second
  rw [Bool.and_eq_true, isNone_iff_eq_none] at gone
  have run := IndexRun.step (.step .refl first) second
  refine ⟨t, u, run, stored, gone.1, gone.2,
    index_closed_of_run headerHashes (some 2) rootHash rootTree u _ rootTree_grounded run ?_⟩
  intro step member
  rcases mem_cons.mp member with rfl | earlier
  · refine fun _ => ⟨by decide, fun _ worst ⟨_, _, off, _⟩ child entry found link => ?_⟩
    rcases parents ⟨child, entry⟩ (mem_lookup_iff.mp found) with alone | onRoot
    · cases alone.symm.trans link
    · cases onRoot.symm.trans link
      exact off (active ▸ mem_singleton_self _)
  · cases mem_singleton.mp earlier
    exact fun _ => ⟨by decide, fun full => absurd full (by decide)⟩

/-- With a cap of three entries the rival takes the place of the first header, which is the parent of the
second. -/
theorem evicted_parent_leaves_child :
    let after := ((IndexOp.perform headerHashes (some 3) rootTree (.processNewHeader (vdfHeader rootHash 1) 1 1)).bind
      fun t =>
      IndexOp.perform headerHashes (some 3) t (.processNewHeader (vdfHeader branchHash 2) 2 2)).bind fun t =>
        IndexOp.perform headerHashes (some 3) t (.processNewHeader (vdfHeader rootHash 3) 3 3)
    Grounded rootHash rootTree ∧ ∃ u, after = some u ∧ ¬ Closed rootHash u := by
  intro after
  have leftBehind : after.any (fun u =>
      (u.getBlockIndex leafHash).any (fun pindex => decide (pindex.pprev = some branchHash)) &&
          (u.getBlockIndex branchHash).isNone) = true := by
    decide +revert
  refine ⟨rootTree_grounded, ?_⟩
  clear_value after
  cases after with
  | none => cases leftBehind
  | some u =>
    rw [any_some, Bool.and_eq_true] at leftBehind
    obtain ⟨child, gone⟩ := leftBehind
    refine ⟨u, rfl, fun closed => ?_⟩
    cases found : u.mapBlockIndex.lookup leafHash with
    | none => simp [getBlockIndex, found] at child
    | some pindex =>
      have link : pindex.pprev = some branchHash := by simpa [getBlockIndex, found] using child
      obtain ⟨parent, above, linkAgain, at_, -⟩ := closed leafHash pindex found (by decide)
      cases link.symm.trans linkAgain
      have missing : u.getBlockIndex branchHash = none := by simpa using gone
      cases missing.symm.trans at_

end BlockTree

end Dilithion
