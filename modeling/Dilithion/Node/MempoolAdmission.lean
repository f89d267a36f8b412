import Dilithion.Node.Mempool

/-! Adding a transaction to the pool: the checks in their order, and the eviction that makes room. -/

namespace Dilithion

open Lib Consensus CTxMemPoolEntry List

structure Offer where
  tx : CTransaction
  fee : CAmount
  time : Int
  height : UInt32
  bypassFeeCheck : Bool
  currentTime : Int

def Offer.entry (offer : Offer) : CTxMemPoolEntry := ⟨offer.tx, offer.fee, offer.time, offer.height⟩

namespace CTxMemPool

variable {H : HashFunctions} {pool : CTxMemPool} {offer : Offer}

def offerWith (H : HashFunctions) (insert : CTxMemPool → CTxMemPoolEntry → Check × CTxMemPool) (pool : CTxMemPool)
    (offer : Offer) : Check × CTxMemPool :=
  pool.addTxUnlockedWith H insert offer.currentTime offer.tx offer.fee offer.time offer.height offer.bypassFeeCheck

def offerTx (H : HashFunctions) (pool : CTxMemPool) (offer : Offer) : Check × CTxMemPool :=
  pool.offerWith H (inserted H) offer

structure Acceptable (H : HashFunctions) (pool : CTxMemPool) (offer : Offer) : Prop where
  notCoinBase : offer.tx.isCoinBase = false
  absent : pool.exists' (offer.tx.getHash H) = false
  unspent : ∀ outpoint ∈ offer.tx.prevouts, outpoint ∉ pool.mapSpentOutpoints
  fee : 0 ≤ offer.fee
  time : 0 < offer.time
  notFuture : offer.time ≤ offer.currentTime + maxTimeSkew
  height : offer.height ≠ 0
  paid : offer.bypassFeeCheck = true ∨ checkFee offer.tx offer.fee true = .ok ()
  size : offer.tx.getSerializedSize ≤ maxTxSize
  noOverflow : pool.mempoolSize ≤ sizeMax - offer.tx.getSerializedSize

/-- The outcome of checks that pass exactly if `good` holds and then may find the pool full. -/
def Decides (outcome : Check) (good : Prop) : Prop :=
  (good ∧ (outcome = .ok () ∨ outcome = .error countFull ∨ outcome = .error sizeFull)) ∨
    ¬ good ∧ ∃ text, outcome = .error text ∧ text ≠ countFull ∧ text ≠ sizeFull

variable {text : String}

lemma Decides.refuse {condition good : Prop} [Decidable condition] {rest : Check}
    (other : text ≠ countFull ∧ text ≠ sizeFull) (decides : Decides rest good) :
    Decides (if condition then .error text else rest) (¬ condition ∧ good) := by
  by_cases holds : condition
  · rw [if_pos holds]
    exact .inr ⟨fun both => both.1 holds, text, rfl, other⟩
  · rw [if_neg holds]
    rcases decides with ⟨fine, full⟩ | ⟨bad, refused⟩
    · exact .inl ⟨⟨holds, fine⟩, full⟩
    · exact .inr ⟨fun both => bad both.2, refused⟩

lemma Decides.congr {outcome : Check} {good other : Prop} (decides : Decides outcome good) (same : good ↔ other) :
    Decides outcome other := propext same ▸ decides

lemma ne_full_of_head (letter : text.toList.head? ≠ some 'M') : text ≠ countFull ∧ text ≠ sizeFull := by
  constructor
  · rintro rfl
    exact letter (by decide)
  · rintro rfl
    exact letter (by decide)

variable {tx : CTransaction}

lemma checkFee_text {fee : CAmount} (refused : checkFee tx fee true = .error text) :
    text ≠ countFull ∧ text ≠ sizeFull := by
  apply ne_full_of_head
  unfold checkFee at refused
  dsimp only at refused
  split at refused
  · cases refused
    simp [String.toList_append]
  · split at refused
    · cases refused
      simp [String.toList_append]
    · split at refused
      · cases refused
        simp [String.toList_append]
      · cases refused

def validateCapacity (pool : CTxMemPool) (txSize : Nat) : Check :=
  if pool.maxMempoolCount ≤ pool.mempoolCount then .error countFull
  else if pool.maxMempoolSize < pool.mempoolSize + txSize then .error sizeFull
  else .ok ()

lemma validateCapacity_decides (pool : CTxMemPool) (txSize : Nat) : Decides (pool.validateCapacity txSize) True := by
  unfold validateCapacity
  split
  · exact .inl ⟨trivial, .inr (.inl rfl)⟩
  · split
    · exact .inl ⟨trivial, .inr (.inr rfl)⟩
    · exact .inl ⟨trivial, .inl rfl⟩

lemma validateLocked_decides (H : HashFunctions) (pool : CTxMemPool) (offer : Offer) :
    Decides (pool.validateLocked H offer.currentTime offer.tx offer.fee offer.time offer.height offer.bypassFeeCheck)
      (pool.Acceptable H offer) := by
  obtain ⟨tx, fee, time, height, bypassFeeCheck, currentTime⟩ := offer
  have sizes : Decides (if maxTxSize < tx.getSerializedSize then .error "Transaction exceeds maximum size"
      else if sizeMax - tx.getSerializedSize < pool.mempoolSize then .error "Mempool size overflow"
      else pool.validateCapacity tx.getSerializedSize)
      (¬ maxTxSize < tx.getSerializedSize ∧ ¬ sizeMax - tx.getSerializedSize < pool.mempoolSize ∧ True) :=
    .refuse (by decide) (.refuse (by decide) (pool.validateCapacity_decides _))
  have checks : Decides (pool.validateLocked H currentTime tx fee time height bypassFeeCheck)
      (¬ tx.isCoinBase = true ∧ ¬ pool.exists' (tx.getHash H) = true ∧
        ¬ tx.prevouts.any pool.isSpent = true ∧ ¬ fee < 0 ∧
        ¬ time ≤ 0 ∧ ¬ currentTime + maxTimeSkew < time ∧ ¬ height = 0 ∧
        (bypassFeeCheck = true ∨ checkFee tx fee true = .ok ()) ∧
        ¬ maxTxSize < tx.getSerializedSize ∧ ¬ sizeMax - tx.getSerializedSize < pool.mempoolSize ∧ True) := by
    refine .refuse (by decide) ?_
    refine .refuse (by decide) ?_
    refine .refuse (by decide) ?_
    refine .refuse (by decide) ?_
    refine .refuse (by decide) ?_
    refine .refuse (by decide) ?_
    refine .refuse (by decide) ?_
    cases bypassFeeCheck with
    | true => exact sizes.congr (by simp)
    | false =>
      cases checked : checkFee tx fee true with
      | ok value => exact sizes.congr (by simp)
      | error text => exact .inr ⟨by simp, text, rfl, checkFee_text checked⟩
  refine checks.congr ?_
  constructor
  · rintro ⟨coinBase, known, double, negative, early, late, genesis, paid, large, overflow, -⟩
    refine ⟨by simpa using coinBase, by simpa using known, ?_, Int64.not_lt.mp negative, not_le.mp early,
      not_lt.mp late, genesis, paid,
      not_lt.mp large, not_lt.mp overflow⟩
    intro outpoint inside spent
    exact double (any_eq_true.mpr ⟨outpoint, inside, decide_eq_true spent⟩)
  · rintro ⟨notCoinBase, absent, unspent, positive, time, notFuture, height, paid, small, noOverflow⟩
    refine ⟨by simp [notCoinBase], by simp [absent], ?_, Int64.not_lt.mpr positive, not_le.mpr time,
      not_lt.mpr notFuture, height, paid,
      not_lt.mpr small, not_lt.mpr noOverflow, trivial⟩
    intro double
    obtain ⟨outpoint, inside, spent⟩ := any_eq_true.mp double
    exact unspent outpoint inside (of_decide_eq_true spent)

def Counted (H : HashFunctions) (pool counted : CTxMemPool) : Prop :=
  (pool.mempoolCount < pool.maxMempoolCount ∧ counted = pool) ∨
    pool.maxMempoolCount ≤ pool.mempoolCount ∧ ∃ victim rest, pool.evictable H = victim :: rest ∧
      counted = (pool.removeTxUnlocked H (victim.getTxHash H)).2

/-- The transaction does not fit, and all that can be evicted is not enough. -/
def Starved (H : HashFunctions) (pool : CTxMemPool) (txSize : Nat) : Prop :=
  pool.maxMempoolSize < pool.mempoolSize + txSize ∧
    totalSize (pool.evictable H) < pool.mempoolSize + txSize - pool.maxMempoolSize

def Sized (H : HashFunctions) (pool : CTxMemPool) (txSize : Nat) (sized : CTxMemPool) : Prop :=
  (pool.mempoolSize + txSize ≤ pool.maxMempoolSize ∧ sized = pool) ∨
    pool.maxMempoolSize < pool.mempoolSize + txSize ∧ ∃ taken, taken <+: pool.evictable H ∧
      taken.map (getTxHash H) = (pool.toEvict H (pool.mempoolSize + txSize - pool.maxMempoolSize)).1 ∧
      pool.mempoolSize + txSize - pool.maxMempoolSize ≤ totalSize taken ∧
      sized = pool.removeAll H (taken.map (getTxHash H))

def Shrinks (pool after : CTxMemPool) : Prop := ∀ item, item ∈ after.mapTx → item ∈ pool.mapTx

lemma Shrinks.trans {middle after : CTxMemPool} (first : Shrinks pool middle) (second : Shrinks middle after) :
    Shrinks pool after := fun item inside => first item (second item inside)

lemma shrinks_removeAll (txids : List Uint256) : Shrinks pool (pool.removeAll H txids) :=
  fun _ inside => (mem_mapTx_removeAll.mp inside).2

variable {counted : CTxMemPool}

lemma Counted.shrinks (isCounted : Counted H pool counted) : Shrinks pool counted := by
  rcases isCounted with ⟨-, rfl⟩ | ⟨-, victim, -, -, rfl⟩
  · exact fun _ inside => inside
  · exact shrinks_removeAll [victim.getTxHash H]

lemma Counted.eq (isCounted : Counted H pool counted) : counted = (pool.makeRoomByCount H).2 := by
  unfold makeRoomByCount
  rcases isCounted with ⟨room, rfl⟩ | ⟨full, victim, rest, evictable, rfl⟩
  · rw [if_neg (not_le.mpr room)]
  · rw [if_pos full, evictTransactions_one evictable]

lemma Counted.eq_of_room (isCounted : Counted H pool counted) (room : pool.mempoolCount < pool.maxMempoolCount) :
    counted = pool := by
  rcases isCounted with ⟨-, same⟩ | ⟨full, -⟩
  · exact same
  · exact absurd full (not_le.mpr room)

lemma Sized.shrinks {txSize : Nat} {sized : CTxMemPool} (isSized : Sized H pool txSize sized) : Shrinks pool sized := by
  rcases isSized with ⟨-, rfl⟩ | ⟨-, taken, -, -, -, rfl⟩
  · exact fun _ inside => inside
  · exact shrinks_removeAll _

section

variable (H) (pool)

lemma makeRoomByCount_cases :
    (pool.maxMempoolCount ≤ pool.mempoolCount ∧ pool.evictable H = [] ∧
      ∃ text, pool.makeRoomByCount H = (.error text, pool)) ∨
      ∃ counted, Counted H pool counted ∧ pool.makeRoomByCount H = (.ok (), counted) := by
  unfold makeRoomByCount
  split
  case isTrue full =>
    cases evictable : pool.evictable H with
    | nil =>
      rcases evictTransactions_cases H pool 1 with ⟨-, failed⟩ | ⟨enough, -⟩
      · exact .inl ⟨full, rfl, failed⟩
      · rw [evictable] at enough
        simp [totalSize] at enough
    | cons victim rest => exact .inr ⟨_, .inr ⟨full, victim, rest, evictable, rfl⟩, evictTransactions_one evictable⟩
  case isFalse room => exact .inr ⟨pool, .inl ⟨not_le.mp room, rfl⟩, rfl⟩

lemma makeRoomBySize_cases (txSize : Nat) :
    (Starved H pool txSize ∧ ∃ text, pool.makeRoomBySize H txSize = (.error text, pool)) ∨
      ¬ Starved H pool txSize ∧ ∃ sized, Sized H pool txSize sized ∧
      pool.makeRoomBySize H txSize = (.ok (), sized) := by
  unfold makeRoomBySize
  split
  case isTrue full =>
    rcases evictTransactions_cases H pool (pool.mempoolSize + txSize - pool.maxMempoolSize) with
      ⟨short, failed⟩ | ⟨enough, taken, front, selected, frees, done⟩
    · exact .inl ⟨⟨full, short⟩, failed⟩
    · exact .inr ⟨fun starved => absurd starved.2 (not_lt.mpr enough), _,
        .inr ⟨full, taken, front, selected, frees, rfl⟩, done⟩
  case isFalse room => exact .inr ⟨fun starved => room starved.1, pool, .inl ⟨not_lt.mp room, rfl⟩, rfl⟩

/-- Everything an offer can come to. Before the insertion, only a failure after the eviction by count leaves a
changed pool. -/
def Outcome (insert : CTxMemPool → CTxMemPoolEntry → Check × CTxMemPool) (offer : Offer)
    (result : Check × CTxMemPool) : Prop :=
  (¬ pool.Acceptable H offer ∧ ∃ text, result = (.error text, pool)) ∨
  (pool.Acceptable H offer ∧ pool.maxMempoolCount ≤ pool.mempoolCount ∧ pool.evictable H = [] ∧
    ∃ text, result = (.error text, pool)) ∨
  (pool.Acceptable H offer ∧ ∃ counted, Counted H pool counted ∧ Starved H counted offer.tx.getSerializedSize ∧
    ∃ text, result = (.error text, counted)) ∨
  pool.Acceptable H offer ∧ ∃ counted sized, Counted H pool counted ∧ ¬ Starved H counted offer.tx.getSerializedSize ∧
    Sized H counted offer.tx.getSerializedSize sized ∧ result = insert sized offer.entry

lemma offerWith_cases (insert : CTxMemPool → CTxMemPoolEntry → Check × CTxMemPool) (offer : Offer) :
    Outcome H pool insert offer (pool.offerWith H insert offer) := by
  have validated := validateLocked_decides H pool offer
  unfold offerWith addTxUnlockedWith
  rcases validated with ⟨acceptable, full⟩ | ⟨refused, text, outcome, notCount, notSize⟩
  · rw [if_neg (by rcases full with same | same | same <;> simp [same])]
    rcases makeRoomByCount_cases H pool with ⟨crowded, none, text, failed⟩ | ⟨counted, isCounted, done⟩
    · rw [failed]
      exact .inr (.inl ⟨acceptable, crowded, none, text, rfl⟩)
    · rw [done]
      dsimp only
      rcases makeRoomBySize_cases H counted offer.tx.getSerializedSize with ⟨starved, text,
        failed⟩ | ⟨fed, sized, isSized, made⟩
      · rw [failed]
        exact .inr (.inr (.inl ⟨acceptable, counted, isCounted, starved, text, rfl⟩))
      · rw [made]
        exact .inr (.inr (.inr ⟨acceptable, counted, sized, isCounted, fed, isSized, rfl⟩))
  · rw [outcome, if_pos (by simp [notCount, notSize])]
    exact .inl ⟨refused, text, rfl⟩

lemma offerTx_cases (offer : Offer) :
    Outcome H pool (fun sized entry => (.ok (), sized.insertEntry H entry)) offer (pool.offerTx H offer) :=
  offerWith_cases H pool (inserted H) offer

end

lemma offerTx_of_room (acceptable : pool.Acceptable H offer) (countFits : pool.mempoolCount < pool.maxMempoolCount)
    (sizeFits : pool.mempoolSize + offer.tx.getSerializedSize ≤ pool.maxMempoolSize) :
    pool.offerTx H offer = (.ok (), pool.insertEntry H offer.entry) := by
  rcases offerTx_cases H pool offer with ⟨refused, -⟩ | ⟨-, full, -⟩ | ⟨-, counted, isCounted, starved, -⟩ |
      ⟨-, counted, sized, isCounted, -, isSized, done⟩
  · exact absurd acceptable refused
  · exact absurd full (not_le.mpr countFits)
  · rw [isCounted.eq_of_room countFits] at starved
    exact absurd starved.1 (not_lt.mpr sizeFits)
  · rw [isCounted.eq_of_room countFits] at isSized
    rcases isSized with ⟨-, rfl⟩ | ⟨beyond, -⟩
    · exact done
    · exact absurd beyond (not_lt.mpr sizeFits)

def withoutConflicts (H : HashFunctions) (pool : CTxMemPool) (tx : CTransaction) : CTxMemPool :=
  pool.removeAll H (pool.conflicts H tx)

lemma mem_conflicts {txid : Uint256} :
    txid ∈ pool.conflicts H tx ↔ ∃ entry ∈ pool.conflicting tx, entry.getTxHash H = txid := by
  have inserted := (OrderedSet.foldl_insert Uint256.less_strict
    (fun _ (_ : _ ∈ (pool.conflicting tx).map (getTxHash H)) => trivial) (fun _ _ => trivial) List.Pairwise.nil).2 txid
  rw [foldl_map] at inserted
  rw [conflicts, inserted]
  simp

lemma mem_conflicting {entry : CTxMemPoolEntry} : entry ∈ pool.conflicting tx ↔
    ∃ txid, (txid, entry) ∈ pool.mapTx ∧ ∃ outpoint ∈ tx.prevouts, outpoint ∈ pool.mapSpentOutpoints ∧
    outpoint ∈ entry.tx.prevouts := by
  unfold conflicting
  simp only [mem_flatMap, mem_filter, mem_map, isSpent, decide_eq_true_eq, Prod.exists, exists_eq_right]
  constructor
  · rintro ⟨outpoint, ⟨inside, spent⟩, ⟨txid, member⟩, spends⟩
    exact ⟨txid, member, outpoint, inside, spent, spends⟩
  · rintro ⟨txid, member, outpoint, inside, spent, spends⟩
    exact ⟨outpoint, ⟨inside, spent⟩, ⟨txid, member⟩, spends⟩

/-- A replacement replaces something, and nothing that has descendants. -/
lemma replaceable_conflicts {fee : CAmount} (checked : pool.checkReplacement H tx fee = .ok ()) :
    pool.conflicts H tx ≠ [] ∧ ∀ txid ∈ pool.conflicts H tx, pool.hasDescendants txid = false := by
  unfold checkReplacement at checked
  simp only [bind, Except.bind, pure, Except.pure, throw, throwThe, MonadExceptOf.throw] at checked
  constructor
  · intro none
    simp [none] at checked
  · intro txid inside
    by_contra descends
    have someDescends : (pool.conflicts H tx).any pool.hasDescendants = true :=
      any_eq_true.mpr ⟨txid, inside, by simpa using descends⟩
    split_ifs at checked

/-- The conflicts are removed in order, all of them if each is found. -/
lemma removeConflicts_cases (H : HashFunctions) (txids : List Uint256) (pool : CTxMemPool) :
    removeConflicts H txids pool = (.ok (), pool.removeAll H txids) ∨
      ∃ removed text, removed <+: txids ∧ removeConflicts H txids pool = (.error text, pool.removeAll H removed) := by
  induction txids generalizing pool with
  | nil => exact .inl rfl
  | cons txid rest ih =>
    rw [removeConflicts]
    rcases removeTxUnlocked_cases H pool txid with ⟨entry, present, done⟩ | ⟨-, done⟩
    · rw [done]
      have once : pool.eraseEntry H txid entry = (pool.removeTxUnlocked H txid).2 := by rw [done]
      rw [once]
      rcases ih (pool.removeTxUnlocked H txid).2 with all | ⟨removed, text, front, failed⟩
      · exact .inl all
      · exact .inr ⟨txid :: removed, text, cons_prefix_cons.mpr ⟨rfl, front⟩, failed⟩
    · rw [done]
      exact .inr ⟨[], _, nil_prefix, rfl⟩

lemma removeConflicts_of_present {txids : List Uint256} (distinct : txids.Nodup)
    (present : ∀ txid ∈ txids, pool.exists' txid = true) :
    removeConflicts H txids pool = (.ok (), pool.removeAll H txids) := by
  induction txids generalizing pool with
  | nil => rfl
  | cons txid rest ih =>
    obtain ⟨apart, distinctRest⟩ := nodup_cons.mp distinct
    obtain ⟨entry, member⟩ := exists'_iff.mp (present txid mem_cons_self)
    have done := removeTxUnlocked_of_mem (H := H) member
    rw [removeConflicts, removeAll_cons, done]
    refine ih distinctRest fun other inside => ?_
    obtain ⟨found, stays⟩ := exists'_iff.mp (present other (mem_cons_of_mem _ inside))
    refine exists'_iff.mpr ⟨found, ?_⟩
    rw [mapTx_eraseEntry, SortedMap.mem_erase]
    exact ⟨fun same => apart (same ▸ inside), stays⟩

lemma conflicts_nodup (tx : CTransaction) : (pool.conflicts H tx).Nodup := by
  have sorted := (OrderedSet.foldl_insert Uint256.less_strict
    (fun _ (_ : _ ∈ (pool.conflicting tx).map (getTxHash H)) => trivial) (fun _ _ => trivial) List.Pairwise.nil).1
  rw [foldl_map] at sorted
  refine sorted.imp fun before same => ?_
  rw [same, Uint256.less_iff] at before
  exact lt_irrefl _ before

/-- A transaction that spends the given outpoints, signals replaceability and has the given number of
empty outputs. -/
def plainTx (prevouts : List COutPoint) (outputs : Nat) : CTransaction where
  nVersion := 1
  vin := prevouts.map fun prevout => ⟨prevout, [], 0⟩
  vout := List.replicate outputs ⟨100000, []⟩
  nLockTime := 0

def sampleCoin (n : UInt32) : COutPoint := ⟨.ofNat 7, n⟩

end CTxMemPool

end Dilithion
