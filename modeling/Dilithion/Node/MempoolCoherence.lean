import Dilithion.Node.MempoolAdmission

/-! The structures of the pool and the calls that admit. The ordered set, the spent outpoints and the counters are
functions of the members, and a call that returns false changes them only through the replacement it began. -/

namespace Dilithion

open Lib CTxMemPoolEntry List
open SortedMap (mem_insert mem_erase not_mem_empty find_eq_none_iff eq_of_mem perm_erase)

def CTxMemPoolEntry.rank (H : HashFunctions) (entry : CTxMemPoolEntry) : Ratᵒᵈ ×ₗ Int ×ₗ Uint256 :=
  toLex (OrderDual.toDual entry.getFeeRate, toLex (entry.time, entry.getTxHash H))

lemma compareTxMemPoolEntryByFeeRate_iff (H : HashFunctions) (a b : CTxMemPoolEntry) :
    compareTxMemPoolEntryByFeeRate H a b = true ↔ a.rank H < b.rank H := by
  unfold compareTxMemPoolEntryByFeeRate rank
  rw [Prod.Lex.toLex_lt_toLex, Prod.Lex.toLex_lt_toLex, ← Uint256.less_iff]
  split
  case isTrue other => simp [other]
  case isFalse same =>
    rw [not_not] at same
    split
    case isTrue early => simp [same, early]
    case isFalse tied =>
      rw [not_not] at tied
      simp [same, tied]

namespace CTxMemPool

structure Coherent (H : HashFunctions) (pool : CTxMemPool) : Prop where
  keyed : ∀ txid entry, (txid, entry) ∈ pool.mapTx → entry.getTxHash H = txid
  listed : ∀ entry, entry ∈ pool.setEntries ↔ (entry.getTxHash H, entry) ∈ pool.mapTx
  ordered : pool.setEntries.Pairwise fun first second => compareTxMemPoolEntryByFeeRate H first second = true
  spent : ∀ outpoint, outpoint ∈ pool.mapSpentOutpoints ↔ ∃ txid entry, (txid, entry) ∈ pool.mapTx ∧
    outpoint ∈ entry.tx.prevouts
  apart : ∀ txid entry otherId other outpoint, (txid, entry) ∈ pool.mapTx → (otherId, other) ∈ pool.mapTx →
    outpoint ∈ entry.tx.prevouts → outpoint ∈ other.tx.prevouts → txid = otherId
  size : pool.mempoolSize = totalSize (pool.mapTx.entries.map Prod.snd)
  count : pool.mempoolCount = pool.mapTx.entries.length
  sizeLimit : pool.mempoolSize ≤ pool.maxMempoolSize
  countLimit : pool.mempoolCount ≤ pool.maxMempoolCount
  addressable : pool.maxMempoolSize ≤ sizeMax
  admitted : ∀ txid entry, (txid, entry) ∈ pool.mapTx → entry.tx.isCoinBase = false ∧ entry.getTxSize ≤ maxTxSize

variable {H : HashFunctions} {pool : CTxMemPool} {txid : Uint256} {entry : CTxMemPoolEntry} {offer : Offer}

lemma coherent_emptyWith {maxMempoolSize : Nat} (addressable : maxMempoolSize ≤ sizeMax) (maxMempoolCount : Nat) :
    Coherent H (emptyWith maxMempoolSize maxMempoolCount) where
  keyed _ _ inside := absurd inside (not_mem_empty _)
  listed entry := ⟨fun inside => absurd inside not_mem_nil, fun inside => absurd inside (not_mem_empty _)⟩
  ordered := List.Pairwise.nil
  spent outpoint := by
    refine ⟨fun inside => absurd inside (Finset.notMem_empty _), ?_⟩
    rintro ⟨_, _, inside, -⟩
    exact absurd inside (not_mem_empty _)
  apart _ _ _ _ _ inside := absurd inside (not_mem_empty _)
  size := rfl
  count := rfl
  sizeLimit := Nat.zero_le _
  countLimit := Nat.zero_le _
  addressable := addressable
  admitted _ _ inside := absurd inside (not_mem_empty _)

/-- What holds of an entry when its insertion begins. -/
structure Addable (H : HashFunctions) (pool : CTxMemPool) (entry : CTxMemPoolEntry) : Prop where
  absent : pool.mapTx.find (entry.getTxHash H) = none
  unspent : ∀ outpoint ∈ entry.tx.prevouts, outpoint ∉ pool.mapSpentOutpoints
  notCoinBase : entry.tx.isCoinBase = false
  small : entry.getTxSize ≤ maxTxSize
  sizeFits : pool.mempoolSize + entry.getTxSize ≤ pool.maxMempoolSize
  countFits : pool.mempoolCount < pool.maxMempoolCount

def InsertsCoherently (H : HashFunctions) (insert : CTxMemPool → CTxMemPoolEntry → Check × CTxMemPool)
    (entry : CTxMemPoolEntry) : Prop :=
  ∀ ⦃pool : CTxMemPool⦄, Coherent H pool → pool.Addable H entry → Coherent H (insert pool entry).2

lemma strict_members (H : HashFunctions) (members : SortedMap Uint256 CTxMemPoolEntry) :
    OrderedSet.StrictOn (compareTxMemPoolEntryByFeeRate H) fun entry => (entry.getTxHash H, entry) ∈ members := by
  refine .of_key (rank H) (compareTxMemPoolEntryByFeeRate_iff H) fun first second inFirst inSecond same => ?_
  have hashes : first.getTxHash H = second.getTxHash H := congrArg (fun rank => (ofLex (ofLex rank).2).2) same
  rw [hashes] at inFirst
  exact eq_of_mem inFirst inSecond

namespace Coherent

lemma mem_foldl_erase (outpoints : List COutPoint) (spent : Finset COutPoint) (outpoint : COutPoint) :
    outpoint ∈ outpoints.foldl Finset.erase spent ↔ outpoint ∉ outpoints ∧ outpoint ∈ spent := by
  induction outpoints generalizing spent with
  | nil => simp
  | cons first rest ih =>
    rw [foldl_cons, ih, Finset.mem_erase, mem_cons]
    tauto

lemma mem_foldl_insert (outpoints : List COutPoint) (spent : Finset COutPoint) (outpoint : COutPoint) :
    outpoint ∈ outpoints.foldl (fun spent outpoint => insert outpoint spent) spent ↔
    outpoint ∈ outpoints ∨ outpoint ∈ spent := by
  induction outpoints generalizing spent with
  | nil => simp
  | cons first rest ih =>
    rw [foldl_cons, ih, Finset.mem_insert, mem_cons]
    tauto

lemma totalSize_erase (member : (txid, entry) ∈ pool.mapTx) :
    totalSize (pool.mapTx.entries.map Prod.snd) = entry.getTxSize + totalSize
      ((pool.mapTx.erase txid).entries.map Prod.snd) := by
  have perm := ((perm_erase member).map Prod.snd).map getTxSize
  exact perm.sum_eq

lemma length_erase (member : (txid, entry) ∈ pool.mapTx) :
    pool.mapTx.entries.length = (pool.mapTx.erase txid).entries.length + 1 := (perm_erase member).length_eq

section

variable (coherent : Coherent H pool)

include coherent

lemma eraseEntry (member : (txid, entry) ∈ pool.mapTx) : Coherent H (pool.eraseEntry H txid entry) := by
  have hash := coherent.keyed txid entry member
  have sizes := totalSize_erase member
  have counts := length_erase member
  have within : ∀ found ∈ pool.setEntries, (found.getTxHash H, found) ∈ pool.mapTx := fun found inside =>
    (coherent.listed found).mp inside
  constructor
  case keyed =>
    intro key found inside
    rw [mapTx_eraseEntry, mem_erase] at inside
    exact coherent.keyed key found inside.2
  case listed =>
    intro found
    rw [setEntries_eraseEntry, OrderedSet.mem_erase (strict_members H pool.mapTx) (hash ▸ member) within,
      coherent.listed, mapTx_eraseEntry,
      mem_erase]
    refine and_congr_left fun inside => not_congr ⟨fun same => same ▸ hash, fun same => ?_⟩
    dsimp only at same
    rw [same] at inside
    exact eq_of_mem inside member
  case ordered =>
    rw [setEntries_eraseEntry]
    exact OrderedSet.sorted_erase coherent.ordered
  case spent =>
    intro outpoint
    rw [mapSpentOutpoints_eraseEntry, mem_foldl_erase, coherent.spent, mapTx_eraseEntry]
    constructor
    · rintro ⟨kept, key, found, inside, spends⟩
      refine ⟨key, found, mem_erase.mpr ⟨?_, inside⟩, spends⟩
      rintro rfl
      exact kept (eq_of_mem inside member ▸ spends)
    · rintro ⟨key, found, inside, spends⟩
      obtain ⟨other, inside⟩ := mem_erase.mp inside
      exact ⟨fun taken => other (coherent.apart key found txid entry outpoint inside member spends taken),
        key, found, inside, spends⟩
  case apart =>
    intro key found otherId other outpoint inFirst inSecond
    rw [mapTx_eraseEntry, mem_erase] at inFirst inSecond
    exact coherent.apart key found otherId other outpoint inFirst.2 inSecond.2
  case size =>
    rw [mempoolSize_eraseEntry, mapTx_eraseEntry, coherent.size]
    omega
  case count =>
    rw [mempoolCount_eraseEntry, mapTx_eraseEntry, coherent.count]
    omega
  case sizeLimit =>
    rw [mempoolSize_eraseEntry, maxMempoolSize_eraseEntry]
    have := coherent.sizeLimit
    omega
  case countLimit =>
    rw [mempoolCount_eraseEntry, maxMempoolCount_eraseEntry]
    have := coherent.countLimit
    omega
  case addressable =>
    rw [maxMempoolSize_eraseEntry]
    exact coherent.addressable
  case admitted =>
    intro key found inside
    rw [mapTx_eraseEntry, mem_erase] at inside
    exact coherent.admitted key found inside.2

lemma removeTxUnlocked (txid : Uint256) : Coherent H (pool.removeTxUnlocked H txid).2 := by
  rcases removeTxUnlocked_cases H pool txid with ⟨entry, member, done⟩ | ⟨-, done⟩
  · rw [done]
    exact coherent.eraseEntry member
  · rw [done]
    exact coherent

lemma removeAll (txids : List Uint256) : Coherent H (pool.removeAll H txids) := by
  induction txids generalizing pool with
  | nil => exact coherent
  | cons txid rest ih => exact ih (coherent.removeTxUnlocked txid)

lemma insertEntry (addable : pool.Addable H entry) : Coherent H (pool.insertEntry H entry) := by
  obtain ⟨absent, unspent, notCoinBase, small, sizeFits, countFits⟩ := addable
  have perm := SortedMap.insert_perm absent entry
  have self : (entry.getTxHash H, entry) ∈ pool.mapTx.insert (entry.getTxHash H) entry := mem_insert.mpr (.inl rfl)
  have kept : ∀ found ∈ pool.setEntries, (found.getTxHash H, found) ∈ pool.mapTx.insert (entry.getTxHash H) entry := by
    intro found inside
    have member := (coherent.listed found).mp inside
    refine mem_insert.mpr (.inr ⟨fun same => ?_, member⟩)
    exact find_eq_none_iff.mp absent found (same ▸ member)
  -- No member spends what the new entry spends.
  have fresh : ∀ key found outpoint, (key, found) ∈ pool.mapTx → outpoint ∈ found.tx.prevouts →
      outpoint ∉ entry.tx.prevouts :=
    fun key found outpoint inside spends taken =>
      unspent outpoint taken ((coherent.spent outpoint).mpr ⟨key, found, inside, spends⟩)
  obtain ⟨descendants, same⟩ := insertEntry_frame H pool entry
  rw [same]
  constructor
  case keyed =>
    intro key found inside
    rcases mem_insert.mp inside with isNew | ⟨-, old⟩
    · cases isNew
      rfl
    · exact coherent.keyed key found old
  case listed =>
    intro found
    rw [OrderedSet.mem_insert (strict_members H _) self kept, coherent.listed, mem_insert, Prod.mk.injEq]
    constructor
    · rintro (rfl | old)
      · exact .inl ⟨rfl, rfl⟩
      · exact .inr ⟨fun clash => find_eq_none_iff.mp absent found (clash ▸ old), old⟩
    · rintro (⟨-, isNew⟩ | ⟨-, old⟩)
      · exact .inl isNew
      · exact .inr old
  case ordered => exact OrderedSet.sorted_insert (strict_members H _) self kept coherent.ordered
  case spent =>
    intro outpoint
    rw [mem_foldl_insert, coherent.spent]
    constructor
    · rintro (isNew | ⟨key, found, inside, spends⟩)
      · exact ⟨_, entry, self, isNew⟩
      · exact ⟨key, found, mem_insert.mpr (.inr ⟨fun clash =>
          find_eq_none_iff.mp absent found (clash ▸ inside), inside⟩), spends⟩
    · rintro ⟨key, found, inside, spends⟩
      rcases mem_insert.mp inside with isNew | ⟨-, old⟩
      · cases isNew
        exact .inl spends
      · exact .inr ⟨key, found, old, spends⟩
  case apart =>
    intro key found otherId other outpoint inFirst inSecond spends alsoSpends
    rcases mem_insert.mp inFirst with isNew | ⟨-, old⟩ <;>
      rcases mem_insert.mp inSecond with alsoNew | ⟨-, alsoOld⟩
    · cases isNew
      cases alsoNew
      rfl
    · cases isNew
      exact absurd spends (fresh otherId other outpoint alsoOld alsoSpends)
    · cases alsoNew
      exact absurd alsoSpends (fresh key found outpoint old spends)
    · exact coherent.apart key found otherId other outpoint old alsoOld spends alsoSpends
  case size =>
    have sum : totalSize ((pool.mapTx.insert (entry.getTxHash H) entry).entries.map Prod.snd) =
        entry.getTxSize + totalSize (pool.mapTx.entries.map Prod.snd) := ((perm.map Prod.snd).map getTxSize).sum_eq
    rw [sum, coherent.size, Nat.add_comm]
  case count =>
    rw [perm.length_eq, coherent.count]
    rfl
  case sizeLimit => exact sizeFits
  case countLimit => exact countFits
  case addressable => exact coherent.addressable
  case admitted =>
    intro key found inside
    rcases mem_insert.mp inside with isNew | ⟨-, old⟩
    · cases isNew
      exact ⟨notCoinBase, small⟩
    · exact coherent.admitted key found old

lemma mempoolSize_removeAll {taken : List CTxMemPoolEntry}
    (members : ∀ entry ∈ taken, (entry.getTxHash H, entry) ∈ pool.mapTx) (distinct : (taken.map (getTxHash H)).Nodup) :
    (pool.removeAll H (taken.map (getTxHash H))).mempoolSize + totalSize taken = pool.mempoolSize ∧
      (pool.removeAll H (taken.map (getTxHash H))).mempoolCount + taken.length = pool.mempoolCount := by
  induction taken generalizing pool with
  | nil => exact ⟨rfl, rfl⟩
  | cons first rest ih =>
    have member := members first mem_cons_self
    obtain ⟨apart, distinctRest⟩ := nodup_cons.mp distinct
    have stay : ∀ entry ∈ rest, (entry.getTxHash H, entry) ∈ (pool.eraseEntry H (first.getTxHash H) first).mapTx := by
      intro entry inside
      rw [mapTx_eraseEntry, mem_erase]
      exact ⟨fun clash => apart (clash ▸ mem_map_of_mem inside), members entry (mem_cons_of_mem _ inside)⟩
    obtain ⟨sizes, counts⟩ := ih (coherent.eraseEntry member) stay distinctRest
    have bytes := totalSize_erase member
    have number := length_erase member
    rw [← coherent.size] at bytes
    rw [← coherent.count] at number
    rw [map_cons, removeAll_cons, removeTxUnlocked_of_mem member]
    rw [mempoolSize_eraseEntry] at sizes
    rw [mempoolCount_eraseEntry] at counts
    have total : totalSize (first :: rest) = first.getTxSize + totalSize rest := by simp [totalSize]
    rw [length_cons]
    dsimp only
    exact ⟨by omega, by omega⟩

lemma evictable_members : ∀ entry ∈ pool.evictable H, (entry.getTxHash H, entry) ∈ pool.mapTx :=
  fun entry inside => (coherent.listed entry).mp (mem_evictable inside).1

lemma setEntries_nodup : pool.setEntries.Nodup := by
  refine coherent.ordered.imp fun before same => ?_
  rw [same, compareTxMemPoolEntryByFeeRate_iff] at before
  exact lt_irrefl _ before

lemma evictable_distinct : ((pool.evictable H).map (getTxHash H)).Nodup := by
  refine ((nodup_reverse.mpr coherent.setEntries_nodup).filter _).map_on fun first inFirst second inSecond same => ?_
  have member := coherent.evictable_members first inFirst
  rw [same] at member
  exact eq_of_mem member (coherent.evictable_members second inSecond)

lemma counted {counted : CTxMemPool} (isCounted : Counted H pool counted) :
    Coherent H counted ∧ counted.mempoolCount < counted.maxMempoolCount := by
  rcases isCounted with ⟨free, rfl⟩ | ⟨full, victim, rest, evictable, rfl⟩
  · exact ⟨coherent, free⟩
  · have member := coherent.evictable_members victim (evictable ▸ mem_cons_self)
    have number := length_erase member
    rw [← coherent.count] at number
    refine ⟨coherent.removeTxUnlocked _, ?_⟩
    rw [removeTxUnlocked_of_mem member, mempoolCount_eraseEntry, maxMempoolCount_eraseEntry]
    have := coherent.countLimit
    omega

lemma sized {sized : CTxMemPool} {txSize : Nat} (isSized : Sized H pool txSize sized)
    (room : pool.mempoolCount < pool.maxMempoolCount) :
    Coherent H sized ∧ sized.mempoolCount < sized.maxMempoolCount ∧
    sized.mempoolSize + txSize ≤ sized.maxMempoolSize := by
  rcases isSized with ⟨fits, rfl⟩ | ⟨beyond, taken, front, -, frees, rfl⟩
  · exact ⟨coherent, room, fits⟩
  · obtain ⟨sizes, counts⟩ := coherent.mempoolSize_removeAll
      (fun entry inside => coherent.evictable_members entry (front.subset inside))
      ((front.map _).sublist.nodup coherent.evictable_distinct)
    rw [maxMempoolSize_removeAll, maxMempoolCount_removeAll]
    exact ⟨coherent.removeAll _, by omega, by omega⟩

lemma offerWith {insert : CTxMemPool → CTxMemPoolEntry → Check × CTxMemPool} (offer : Offer)
    (inserts : pool.Acceptable H offer → InsertsCoherently H insert offer.entry) :
    Coherent H (pool.offerWith H insert offer).2 := by
  rcases offerWith_cases H pool insert offer with ⟨-, text, done⟩ | ⟨-, -, -, text, done⟩ | ⟨-, counted,
      isCounted, -, text, done⟩ |
      ⟨acceptable, counted, sized, isCounted, -, isSized, done⟩
  · rw [done]
    exact coherent
  · rw [done]
    exact coherent
  · rw [done]
    exact (coherent.counted isCounted).1
  · rw [done]
    obtain ⟨countedCoherent, room⟩ := coherent.counted isCounted
    obtain ⟨sizedCoherent, countFits, sizeFits⟩ := countedCoherent.sized isSized room
    have shrinks := isCounted.shrinks.trans isSized.shrinks
    refine inserts acceptable sizedCoherent ⟨?_, ?_, acceptable.notCoinBase, acceptable.size, sizeFits, countFits⟩
    · refine find_eq_none_iff.mpr fun found inside => ?_
      exact find_eq_none_iff.mp (not_exists'_iff.mp acceptable.absent) found (shrinks _ inside)
    · intro outpoint taken spent
      obtain ⟨key, found, inside, spends⟩ := (sizedCoherent.spent outpoint).mp spent
      exact acceptable.unspent outpoint taken ((coherent.spent outpoint).mpr ⟨key, found, shrinks _ inside, spends⟩)

lemma offerTx (offer : Offer) : Coherent H (pool.offerTx H offer).2 :=
  coherent.offerWith offer fun _ _ before addable => before.insertEntry addable

end

end Coherent

end CTxMemPool

open Lib

structure SoundPool (H : HashFunctions) extends CTxMemPool where
  coherent : toCTxMemPool.Coherent H

inductive Admission where
  | addTx (tx : Option CTransaction) (fee : CAmount) (time : Int) (height : UInt32) (bypassFeeCheck : Bool)
  | replaceTransaction (tx : Option CTransaction) (fee : CAmount) (time : Int) (height : UInt32)

namespace CTxMemPool

variable {H : HashFunctions} {pool : CTxMemPool}

def attempt (H : HashFunctions) (pool : CTxMemPool) (currentTime : Int) : Admission → Check × CTxMemPool
  | .addTx tx fee time height bypassFeeCheck => pool.addTx H currentTime tx fee time height bypassFeeCheck
  | .replaceTransaction tx fee time height => pool.replaceTransaction H currentTime tx fee time height

def SameContents (pool after : CTxMemPool) : Prop :=
  after.mapTx = pool.mapTx ∧ after.mapSpentOutpoints = pool.mapSpentOutpoints ∧ after.mempoolSize = pool.mempoolSize ∧
    after.mempoolCount = pool.mempoolCount

/-- Nothing is removed in vain. A transaction added to a pool that is full by count finds room for its bytes
once the first member has been evicted; a replacement that passes its rules is acceptable without the
members it replaces, and finds room there. -/
def Undamaged (H : HashFunctions) (pool : CTxMemPool) (currentTime : Int) : Admission → Prop
  | .addTx (some tx) fee time height bypassFeeCheck =>
    pool.Acceptable H ⟨tx, fee, time, height, bypassFeeCheck, currentTime⟩ → pool.maxMempoolCount ≤ pool.mempoolCount →
      ∀ victim rest, pool.evictable H = victim :: rest →
        ¬ Starved H (pool.removeTxUnlocked H (victim.getTxHash H)).2 tx.getSerializedSize
  | .replaceTransaction (some tx) fee time height =>
    pool.checkReplacement H tx fee = .ok () →
      (pool.withoutConflicts H tx).Acceptable H ⟨tx, fee, time, height, false, currentTime⟩ ∧
      ¬ Starved H (pool.withoutConflicts H tx) tx.getSerializedSize
  | _ => True

namespace Coherent

section

variable (coherent : Coherent H pool)

include coherent

variable {tx : CTransaction}

lemma conflict_exists {txid : Uint256} (inside : txid ∈ pool.conflicts H tx) : pool.exists' txid = true := by
  obtain ⟨entry, found, rfl⟩ := mem_conflicts.mp inside
  obtain ⟨txid, member, -⟩ := mem_conflicting.mp found
  rw [coherent.keyed txid entry member]
  exact exists'_iff.mpr ⟨entry, member⟩

/-- A replacement fails its rules, or is offered to the pool without its conflicts. -/
lemma replaceTransactionLockedWith_cases
    (insert : CTxMemPool → CTxMemPoolEntry → Check × CTxMemPool) (currentTime : Int)
    (tx : CTransaction) (fee : CAmount) (time : Int) (height : UInt32) :
    (∃ text, pool.checkReplacement H tx fee = .error text ∧
      pool.replaceTransactionLockedWith H insert currentTime tx fee time height = (.error text, pool)) ∨
    pool.checkReplacement H tx fee = .ok () ∧
    pool.replaceTransactionLockedWith H insert currentTime tx fee time height =
      (pool.withoutConflicts H tx).offerWith H insert ⟨tx, fee, time, height, false, currentTime⟩ := by
  unfold replaceTransactionLockedWith
  cases checked : pool.checkReplacement H tx fee with
  | error text => exact .inl ⟨text, rfl, rfl⟩
  | ok value =>
    refine .inr ⟨rfl, ?_⟩
    rw [removeConflicts_of_present (conflicts_nodup tx) fun txid inside => coherent.conflict_exists inside]
    rfl

lemma replaceTransactionLocked_cases (currentTime : Int) (tx : CTransaction) (fee : CAmount)
    (time : Int) (height : UInt32) :
    (∃ text, pool.checkReplacement H tx fee = .error text ∧
      pool.replaceTransactionLocked H currentTime tx fee time height = (.error text, pool)) ∨
    pool.checkReplacement H tx fee = .ok () ∧ pool.replaceTransactionLocked H currentTime tx fee time height =
      (pool.withoutConflicts H tx).offerTx H ⟨tx, fee, time, height, false, currentTime⟩ :=
  coherent.replaceTransactionLockedWith_cases (inserted H) currentTime tx fee time height

lemma replaceTransactionLocked (currentTime : Int) (tx : CTransaction) (fee : CAmount) (time : Int)
    (height : UInt32) : Coherent H (pool.replaceTransactionLocked H currentTime tx fee time height).2 := by
  rcases coherent.replaceTransactionLocked_cases currentTime tx fee time height with ⟨text, -, done⟩ | ⟨-, done⟩
  · rw [done]
    exact coherent
  · rw [done]
    exact (coherent.removeAll _).offerTx _

lemma attempt (currentTime : Int) (admission : Admission) : Coherent H (pool.attempt H currentTime admission).2 := by
  cases admission with
  | addTx tx fee time height bypassFeeCheck =>
    cases tx with
    | none => exact coherent
    | some tx => exact coherent.offerTx ⟨tx, fee, time, height, bypassFeeCheck, currentTime⟩
  | replaceTransaction tx fee time height =>
    cases tx with
    | none => exact coherent
    | some tx => exact coherent.replaceTransactionLocked currentTime tx fee time height

/-- Without its conflicts the pool has lost a member, and is not full by count. -/
lemma withoutConflicts_smaller {fee : CAmount} (checked : pool.checkReplacement H tx fee = .ok ()) :
    (∃ item, item ∈ pool.mapTx ∧ item ∉ (pool.withoutConflicts H tx).mapTx) ∧
      (pool.withoutConflicts H tx).mempoolCount < (pool.withoutConflicts H tx).maxMempoolCount := by
  obtain ⟨first, rest, conflicts⟩ := List.exists_cons_of_ne_nil (replaceable_conflicts checked).1
  have inside : first ∈ pool.conflicts H tx := conflicts ▸ List.mem_cons_self
  obtain ⟨entry, member⟩ := exists'_iff.mp (coherent.conflict_exists inside)
  constructor
  · exact ⟨(first, entry), member, fun stays => (mem_mapTx_removeAll.mp stays).1 inside⟩
  · have fewer := mempoolCount_removeAll_le H (pool.eraseEntry H first entry) rest
    have number := length_erase member
    rw [← coherent.count] at number
    have := coherent.countLimit
    unfold withoutConflicts
    rw [maxMempoolCount_removeAll, conflicts, removeAll_cons, removeTxUnlocked_of_mem member]
    rw [mempoolCount_eraseEntry] at fewer
    dsimp only
    omega

end

end Coherent

lemma SameContents.refl (pool : CTxMemPool) : SameContents pool pool := ⟨rfl, rfl, rfl, rfl⟩

lemma not_sameContents {middle after : CTxMemPool} {item : Uint256 × CTxMemPoolEntry} (member : item ∈ pool.mapTx)
    (lost : item ∉ middle.mapTx) (shrinks : Shrinks middle after) : ¬ SameContents pool after :=
  fun same => lost (shrinks item (same.1 ▸ member))

lemma addTx_sameContents_iff (coherent : Coherent H pool) (offer : Offer) :
    ((pool.offerTx H offer).1 ≠ .ok () → SameContents pool (pool.offerTx H offer).2) ↔
      (pool.Acceptable H offer → pool.maxMempoolCount ≤ pool.mempoolCount →
        ∀ victim rest, pool.evictable H = victim :: rest →
        ¬ Starved H (pool.removeTxUnlocked H (victim.getTxHash H)).2 offer.tx.getSerializedSize) := by
  rcases offerTx_cases H pool offer with ⟨refused, text, done⟩ | ⟨-, -, none, text, done⟩ |
      ⟨acceptable, counted, isCounted, starved, text, done⟩ | ⟨-, counted, sized, isCounted, fed, -, done⟩
  · rw [done]
    exact ⟨fun _ acceptable => absurd acceptable refused, fun _ _ => .refl pool⟩
  · rw [done]
    refine ⟨fun _ _ _ victim rest some => ?_, fun _ _ => .refl pool⟩
    rw [none] at some
    cases some
  · rw [done]
    rcases isCounted with ⟨free, rfl⟩ | ⟨full, victim, rest, evictable, rfl⟩
    · exact ⟨fun _ _ full => absurd full (not_le.mpr free), fun _ _ => .refl _⟩
    · constructor
      · intro same
        have member := coherent.evictable_members victim (evictable ▸ List.mem_cons_self)
        refine absurd (same (by simp)) (not_sameContents member ?_ fun _ inside => inside)
        rw [mapTx_removeTxUnlocked, SortedMap.mem_erase]
        exact fun stays => stays.1 rfl
      · intro fed
        exact absurd starved (fed acceptable full victim rest evictable)
  · rw [done]
    refine ⟨fun _ _ full victim rest evictable => ?_, fun _ failed => absurd rfl failed⟩
    rcases isCounted with ⟨free, -⟩ | ⟨-, first, others, same, rfl⟩
    · exact absurd full (not_le.mpr free)
    · rw [evictable] at same
      cases same
      exact fed

lemma replaceTransaction_sameContents_iff (coherent : Coherent H pool) (currentTime : Int)
    (tx : CTransaction) (fee : CAmount)
    (time : Int) (height : UInt32) :
    ((pool.replaceTransactionLocked H currentTime tx fee time height).1 ≠ .ok () →
      SameContents pool (pool.replaceTransactionLocked H currentTime tx fee time height).2) ↔
    (pool.checkReplacement H tx fee = .ok () →
      (pool.withoutConflicts H tx).Acceptable H ⟨tx, fee, time, height, false, currentTime⟩ ∧
        ¬ Starved H (pool.withoutConflicts H tx) tx.getSerializedSize) := by
  rcases coherent.replaceTransactionLocked_cases currentTime tx fee time height with
    ⟨text, failed, done⟩ | ⟨checked, done⟩
  · rw [done, failed]
    exact ⟨fun _ passed => (nomatch passed), fun _ _ => .refl pool⟩
  · rw [done]
    obtain ⟨⟨item, member, lost⟩, free⟩ := coherent.withoutConflicts_smaller checked
    -- The pool without the conflicts is not full by count, so nothing is evicted for the count.
    rcases offerTx_cases H (pool.withoutConflicts H tx)
        ⟨tx, fee, time, height, false, currentTime⟩ with ⟨refused, text, outcome⟩ |
        ⟨-, full, -⟩ | ⟨-, counted, isCounted, starved, text, outcome⟩ | ⟨acceptable, counted, sized,
          isCounted, fed, -, outcome⟩
    · rw [outcome]
      refine ⟨fun same => absurd (same (by simp)) (not_sameContents member lost fun _ inside => inside),
        fun passes => ?_⟩
      exact absurd (passes checked).1 refused
    · exact absurd full (not_le.mpr free)
    · rw [outcome]
      rw [isCounted.eq_of_room free] at starved ⊢
      refine ⟨fun same => absurd (same (by simp)) (not_sameContents member lost fun _ inside => inside),
        fun passes => ?_⟩
      exact absurd starved (passes checked).2
    · rw [outcome]
      rw [isCounted.eq_of_room free] at fed
      exact ⟨fun _ _ => ⟨acceptable, fed⟩, fun _ failed => absurd rfl failed⟩

/-- A refused admission leaves the contents alone exactly if nothing is removed in vain. -/
theorem admission_all_or_nothing_iff (pool : SoundPool H) (currentTime : Int) (admission : Admission) :
    ((pool.attempt H currentTime admission).1 ≠ .ok () →
      SameContents pool.toCTxMemPool (pool.attempt H currentTime admission).2) ↔
      Undamaged H pool.toCTxMemPool currentTime admission := by
  cases admission with
  | addTx tx fee time height bypassFeeCheck =>
    cases tx with
    | none => exact ⟨fun _ => trivial, fun _ _ => .refl _⟩
    | some tx => exact addTx_sameContents_iff pool.coherent ⟨tx, fee, time, height, bypassFeeCheck, currentTime⟩
  | replaceTransaction tx fee time height =>
    cases tx with
    | none => exact ⟨fun _ => trivial, fun _ _ => .refl _⟩
    | some tx => exact replaceTransaction_sameContents_iff pool.coherent currentTime tx fee time height

theorem rejected_replacement_drops_original :
    let pool := (CTxMemPool.empty.addTx lengthHash 1000 (some (plainTx [sampleCoin 0] 1)) 10000 1000 5 false).2
    let after := pool.replaceTransaction lengthHash 1000 (some (plainTx [sampleCoin 0] 2)) 20000000 1000 5
    Coherent lengthHash pool ∧ pool.exists' ((plainTx [sampleCoin 0] 1).getHash lengthHash) = true ∧
      pool.mempoolCount = 1 ∧
      after.1.isOk = false ∧ after.2.exists' ((plainTx [sampleCoin 0] 1).getHash lengthHash) = false ∧
      after.2.mempoolCount = 0 ∧
      ¬ SameContents pool after.2 := by
  have counts : (CTxMemPool.empty.addTx lengthHash 1000
    (some (plainTx [sampleCoin 0] 1)) 10000 1000 5 false).2.mempoolCount = 1 := by decide
  have emptied : ((CTxMemPool.empty.addTx lengthHash 1000
      (some (plainTx [sampleCoin 0] 1)) 10000 1000 5 false).2.replaceTransaction lengthHash
      1000 (some (plainTx [sampleCoin 0] 2)) 20000000 1000 5).2.mempoolCount = 0 := by decide
  refine ⟨?_, by decide, counts, by decide, by decide, emptied, fun same => ?_⟩
  · exact (coherent_emptyWith (by decide) _).attempt 1000 (.addTx (some (plainTx [sampleCoin 0] 1)) 10000 1000 5 false)
  · have equal := same.2.2.2
    cases equal

end CTxMemPool

end Dilithion
