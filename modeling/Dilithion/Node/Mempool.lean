import Dilithion.Chain.BlockIndex
import Dilithion.Consensus.TxValidation

/-! The memory pool. A transaction is admitted after checks against the pool, and others may be evicted or
replaced for it. The clock is a parameter of the operations that read it. An admission is given the insertion it
ends with; `insertEntry` is the insertion in which nothing throws. -/

namespace Dilithion

open Lib

instance : LinearOrder Uint256 := LinearOrder.lift' (fun hash => LittleEndian.value hash.data.reverse) (by
  intro first second same
  exact Uint256.ext_data (List.reverse_injective (LittleEndian.value_injective (by simp) same)))

lemma Uint256.less_iff (first second : Uint256) : Uint256.less first second = true ↔ first < second :=
  memLess_iff (by simp)

namespace Consensus

def nearestEven (numerator denominator : Nat) : Nat :=
  let below := numerator / denominator
  let rest := numerator % denominator
  if 2 * rest < denominator ∨ 2 * rest = denominator ∧ below % 2 = 0 then below else below + 1

def binade (numerator denominator : Nat) : Int :=
  let exponent : Int := (numerator.log2 : Int) - denominator.log2
  if denominator * 2 ^ exponent.toNat ≤ numerator * 2 ^ (-exponent).toNat then exponent else exponent - 1

/-- The `double` nearest to a quotient, with a significand of 53 bits. Fees and sizes are far from the ends
of the exponent range. -/
def nearestDouble (numerator denominator : Nat) : Rat :=
  let scale := binade numerator denominator - 52
  if numerator = 0 then 0
  else mkRat (nearestEven (numerator * 2 ^ (-scale).toNat) (denominator * 2 ^ scale.toNat) * 2 ^ scale.toNat : Nat)
    (2 ^ (-scale).toNat)

def calculateFeeRate (feePaid : CAmount) (txSize : Nat) : Rat :=
  if txSize = 0 then 0
  else
    let quotient := nearestDouble feePaid.toInt.natAbs 1 / nearestDouble txSize 1
    let magnitude := nearestDouble quotient.num.natAbs quotient.den
    if feePaid < 0 then -magnitude else magnitude

end Consensus

structure CTxMemPoolEntry where
  tx : CTransaction
  fee : CAmount
  time : Int
  height : UInt32
  deriving DecidableEq

namespace CTxMemPoolEntry

def getTxHash (H : HashFunctions) (entry : CTxMemPoolEntry) : Uint256 := entry.tx.getHash H

variable (entry : CTxMemPoolEntry)

def getTxSize : Nat := entry.tx.getSerializedSize

def getFeeRate : Rat := Consensus.calculateFeeRate entry.fee entry.getTxSize

end CTxMemPoolEntry

def compareTxMemPoolEntryByFeeRate (H : HashFunctions) (a b : CTxMemPoolEntry) : Bool :=
  if a.getFeeRate ≠ b.getFeeRate then decide (b.getFeeRate < a.getFeeRate)
  else if a.time ≠ b.time then decide (a.time < b.time)
  else Uint256.less (a.getTxHash H) (b.getTxHash H)

def CTransaction.prevouts (tx : CTransaction) : List COutPoint := tx.vin.map CTxIn.prevout

structure CTxMemPool where
  mapTx : SortedMap Uint256 CTxMemPoolEntry
  setEntries : List CTxMemPoolEntry
  mapSpentOutpoints : Finset COutPoint
  mapDescendants : SortedMap Uint256 (Finset Uint256)
  maxMempoolSize : Nat
  mempoolSize : Nat
  maxMempoolCount : Nat
  mempoolCount : Nat

namespace CTxMemPool

def defaultMaxMempoolSize : Nat := 300 * 1024 * 1024

def defaultMaxMempoolCount : Nat := 100000

def mempoolExpirySeconds : Int := 14 * 24 * 60 * 60

def maxTimeSkew : Int := 2 * 60 * 60

def maxTxSize : Nat := 1000000

def sizeMax : Nat := 2 ^ 64 - 1

def emptyWith (maxMempoolSize maxMempoolCount : Nat) : CTxMemPool :=
  ⟨.empty, [], ∅, .empty, maxMempoolSize, 0, maxMempoolCount, 0⟩

def empty : CTxMemPool := emptyWith defaultMaxMempoolSize defaultMaxMempoolCount

variable (H : HashFunctions) (pool : CTxMemPool) (txid : Uint256) (currentTime : Int) (tx : CTransaction)

def exists' : Bool := (pool.mapTx.find txid).isSome

def isSpent (outpoint : COutPoint) : Bool := decide (outpoint ∈ pool.mapSpentOutpoints)

def hasDescendants : Bool :=
  (pool.mapDescendants.find txid).any fun children => decide (children ≠ ∅)

-- `mapDescendants[parent]` starts an empty set for a parent that has none.
def addChild (pool : CTxMemPool) (parent : Uint256) : CTxMemPool :=
  if pool.exists' parent then
    { pool with
      mapDescendants := pool.mapDescendants.insert parent (insert txid ((pool.mapDescendants.find parent).getD ∅)) }
  else pool

def updateDescendantsAdd (pool : CTxMemPool) (tx : CTransaction) : CTxMemPool :=
  (tx.prevouts.map COutPoint.hash).foldl (addChild (tx.getHash H)) pool

-- A set that becomes empty is dropped.
def removeChild (pool : CTxMemPool) (parent : Uint256) : CTxMemPool :=
  match pool.mapDescendants.find parent with
  | none => pool
  | some children =>
    if children.erase txid = ∅ then { pool with mapDescendants := pool.mapDescendants.erase parent }
    else { pool with mapDescendants := pool.mapDescendants.insert parent (children.erase txid) }

def updateDescendantsRemove : CTxMemPool :=
  match pool.mapTx.find txid with
  | none => pool
  | some entry =>
    let unregistered := (entry.tx.prevouts.map COutPoint.hash).foldl (removeChild txid) pool
    { unregistered with mapDescendants := unregistered.mapDescendants.erase txid }

def eraseEntry (entry : CTxMemPoolEntry) : CTxMemPool :=
  let unregistered := pool.updateDescendantsRemove txid
  { unregistered with
    mapSpentOutpoints := entry.tx.prevouts.foldl Finset.erase unregistered.mapSpentOutpoints
    setEntries := OrderedSet.erase (compareTxMemPoolEntryByFeeRate H) entry unregistered.setEntries
    mempoolSize := if unregistered.mempoolSize < entry.getTxSize then 0 else unregistered.mempoolSize - entry.getTxSize
    mempoolCount := if 0 < unregistered.mempoolCount then unregistered.mempoolCount - 1 else unregistered.mempoolCount
    mapTx := unregistered.mapTx.erase txid }

def removeTxUnlocked : Bool × CTxMemPool :=
  match pool.mapTx.find txid with
  | none => (false, pool)
  | some entry => (true, pool.eraseEntry H txid entry)

def removeAll (txids : List Uint256) : CTxMemPool :=
  txids.foldl (fun pool txid => (pool.removeTxUnlocked H txid).2) pool

def removeConfirmedTxs (blockTxs : List CTransaction) : CTxMemPool :=
  pool.removeAll H (blockTxs.map (CTransaction.getHash H))

def isExpired (entry : CTxMemPoolEntry) : Bool :=
  decide (mempoolExpirySeconds < currentTime - entry.time) && !pool.hasDescendants (entry.getTxHash H)

def cleanupExpiredTransactions : CTxMemPool :=
  pool.removeAll H (((pool.mapTx.entries.map Prod.snd).filter (pool.isExpired H currentTime)).map
    (CTxMemPoolEntry.getTxHash H))

/-- The transactions to evict and the bytes they free: entries without descendants are taken until
`bytesNeeded` are freed. -/
def selectEvictions (H : HashFunctions) (pool : CTxMemPool) (bytesNeeded : Nat) :
    List CTxMemPoolEntry → Nat → List Uint256 × Nat
  | [], bytesFreed => ([], bytesFreed)
  | entry :: rest, bytesFreed =>
    if pool.hasDescendants (entry.getTxHash H) then selectEvictions H pool bytesNeeded rest bytesFreed
    else if bytesNeeded ≤ bytesFreed + entry.getTxSize then ([entry.getTxHash H], bytesFreed + entry.getTxSize)
    else
      let later := selectEvictions H pool bytesNeeded rest (bytesFreed + entry.getTxSize)
      (entry.getTxHash H :: later.1, later.2)

def toEvict (bytesNeeded : Nat) : List Uint256 × Nat :=
  pool.selectEvictions H bytesNeeded pool.setEntries.reverse 0

def evictTransactions (bytesNeeded : Nat) : Check × CTxMemPool :=
  if (pool.toEvict H bytesNeeded).2 < bytesNeeded then
    (.error "Cannot evict enough transactions: all remaining transactions have descendants", pool)
  else (.ok (), pool.removeAll H (pool.toEvict H bytesNeeded).1)

def countFull : String := "Mempool full (transaction count limit)"

def sizeFull : String := "Mempool full (size limit)"

def validateLocked (fee : CAmount) (time : Int) (height : UInt32) (bypassFeeCheck : Bool) : Check := do
  if tx.isCoinBase then throw "Coinbase transaction not allowed in mempool"
  if pool.exists' (tx.getHash H) then throw "Already in mempool"
  if tx.prevouts.any pool.isSpent then
    throw "Transaction spends output already spent by transaction in mempool (double-spend attempt)"
  if fee < 0 then throw "Negative fee not allowed"
  if time ≤ 0 then throw "Transaction time must be positive"
  if currentTime + maxTimeSkew < time then throw "Transaction time too far in future"
  if height = 0 then throw "Transaction height cannot be zero"
  if !bypassFeeCheck then Consensus.checkFee tx fee true
  if maxTxSize < tx.getSerializedSize then throw "Transaction exceeds maximum size"
  if sizeMax - tx.getSerializedSize < pool.mempoolSize then throw "Mempool size overflow"
  if pool.maxMempoolCount ≤ pool.mempoolCount then throw countFull
  if pool.maxMempoolSize < pool.mempoolSize + tx.getSerializedSize then throw sizeFull

def insertEntry (entry : CTxMemPoolEntry) : CTxMemPool :=
  updateDescendantsAdd H { pool with
      mapTx := pool.mapTx.insert (entry.getTxHash H) entry
      setEntries := OrderedSet.insert (compareTxMemPoolEntryByFeeRate H) entry pool.setEntries
      mapSpentOutpoints := entry.tx.prevouts.foldl (fun spent outpoint => insert outpoint spent) pool.mapSpentOutpoints
      mempoolSize := pool.mempoolSize + entry.getTxSize
      mempoolCount := pool.mempoolCount + 1 } entry.tx

def makeRoomByCount : Check × CTxMemPool :=
  if pool.maxMempoolCount ≤ pool.mempoolCount then pool.evictTransactions H 1 else (.ok (), pool)

def makeRoomBySize (txSize : Nat) : Check × CTxMemPool :=
  if pool.maxMempoolSize < pool.mempoolSize + txSize then
    pool.evictTransactions H (pool.mempoolSize + txSize - pool.maxMempoolSize)
  else (.ok (), pool)

/-- Validation, then up to two evictions, then the insertion. A full pool is no reason to stop before the
evictions have been tried. -/
def addTxUnlockedWith (insert : CTxMemPool → CTxMemPoolEntry → Check × CTxMemPool)
    (pool : CTxMemPool) (currentTime : Int)
    (tx : CTransaction) (fee : CAmount) (time : Int) (height : UInt32) (bypassFeeCheck : Bool) : Check × CTxMemPool :=
  let validated := pool.validateLocked H currentTime tx fee time height bypassFeeCheck
  if validated ≠ .ok () ∧ validated ≠ .error countFull ∧ validated ≠ .error sizeFull then (validated, pool)
  else
    match pool.makeRoomByCount H with
    | (.error text, counted) => (.error text, counted)
    | (.ok (), counted) =>
      match counted.makeRoomBySize H tx.getSerializedSize with
      | (.error text, sized) => (.error text, sized)
      | (.ok (), sized) => insert sized ⟨tx, fee, time, height⟩

def inserted (pool : CTxMemPool) (entry : CTxMemPoolEntry) : Check × CTxMemPool := (.ok (), pool.insertEntry H entry)

def addTxUnlocked (fee : CAmount) (time : Int) (height : UInt32) (bypassFeeCheck : Bool) : Check × CTxMemPool :=
  pool.addTxUnlockedWith H (inserted H) currentTime tx fee time height bypassFeeCheck

-- The pointer may be null.
def addTx (tx : Option CTransaction) (fee : CAmount) (time : Int)
    (height : UInt32) (bypassFeeCheck : Bool) : Check × CTxMemPool :=
  match tx with
  | none => (.error "Null tx", pool)
  | some tx => pool.addTxUnlocked H currentTime tx fee time height bypassFeeCheck

def signalsRbf : Bool := tx.vin.any fun txin => decide (txin.nSequence < 0xfffffffe)

/-- The entries that spend an input of the transaction, once for every input they share with it. -/
def conflicting : List CTxMemPoolEntry :=
  (tx.prevouts.filter pool.isSpent).flatMap fun outpoint =>
    (pool.mapTx.entries.map Prod.snd).filter fun entry => decide (outpoint ∈ entry.tx.prevouts)

def conflicts : List Uint256 :=
  (pool.conflicting tx).foldl (fun found entry => OrderedSet.insert Uint256.less (entry.getTxHash H) found) []

def replacedFees : CAmount :=
  (pool.conflicting tx).foldl (fun fees entry => fees + entry.fee) 0

/-- The rules of BIP-125, and that no replaced transaction has descendants. -/
def checkReplacement (fee : CAmount) : Check := do
  if (pool.conflicts H tx).isEmpty then throw "No conflicting transactions found - use AddTx() for new transactions"
  if (pool.conflicts H tx).any (fun txid => (pool.mapTx.find txid).any fun entry => !signalsRbf entry.tx) then
    throw "Original transaction does not signal replaceability (BIP-125 rule 1)"
  if !signalsRbf tx then throw "Replacement transaction does not signal replaceability (BIP-125 rule 2)"
  if fee ≤ pool.replacedFees tx then throw "Replacement fee must be higher than replaced fees (BIP-125 rule 3)"
  if fee - pool.replacedFees tx < Int64.ofNat tx.getSerializedSize then
    throw "Replacement does not pay for bandwidth (BIP-125 rule 4)"
  if 100 < (pool.conflicts H tx).length then throw "Cannot replace more than 100 transactions (BIP-125 rule 5)"
  if (pool.conflicts H tx).any pool.hasDescendants then throw "Cannot replace transaction with descendants"

def removeConflicts (H : HashFunctions) : List Uint256 → CTxMemPool → Check × CTxMemPool
  | [], pool => (.ok (), pool)
  | txid :: rest, pool =>
    match pool.removeTxUnlocked H txid with
    | (false, after) => (.error "Failed to remove conflicting transaction", after)
    | (true, after) => removeConflicts H rest after

/-- The conflicts are removed before the replacement is offered, and stay removed when it is refused. -/
def replaceTransactionLockedWith (insert : CTxMemPool → CTxMemPoolEntry → Check × CTxMemPool) (pool : CTxMemPool)
    (currentTime : Int) (tx : CTransaction) (fee : CAmount) (time : Int) (height : UInt32) : Check × CTxMemPool :=
  match pool.checkReplacement H tx fee with
  | .error text => (.error text, pool)
  | .ok () =>
    match removeConflicts H (pool.conflicts H tx) pool with
    | (.error text, removed) => (.error text, removed)
    | (.ok (), removed) => removed.addTxUnlockedWith H insert currentTime tx fee time height false

def replaceTransactionLocked (fee : CAmount) (time : Int) (height : UInt32) : Check × CTxMemPool :=
  pool.replaceTransactionLockedWith H (inserted H) currentTime tx fee time height

def replaceTransaction (tx : Option CTransaction) (fee : CAmount) (time : Int) (height : UInt32) : Check × CTxMemPool :=
  match tx with
  | none => (.error "Null replacement transaction", pool)
  | some tx => pool.replaceTransactionLocked H currentTime tx fee time height

end CTxMemPool

open SortedMap CTxMemPoolEntry List

lemma CTransaction.getSerializedSize_pos (tx : CTransaction) : 0 < tx.getSerializedSize := by
  unfold CTransaction.getSerializedSize
  omega

namespace CTxMemPool

variable {H : HashFunctions} {pool : CTxMemPool} {txid parent child : Uint256}
  {entry : CTxMemPoolEntry} {tx : CTransaction}

lemma exists'_iff : pool.exists' txid = true ↔ ∃ entry, (txid, entry) ∈ pool.mapTx := by
  unfold exists'
  rw [Option.isSome_iff_exists]
  exact exists_congr fun entry => find_eq_some_iff

lemma not_exists'_iff : pool.exists' txid = false ↔ pool.mapTx.find txid = none := by
  unfold exists'
  rw [Option.isSome_eq_false_iff, Option.isNone_iff_eq_none]

def children (pool : CTxMemPool) (parent : Uint256) : Finset Uint256 := (pool.mapDescendants.find parent).getD ∅

def parents (tx : CTransaction) : List Uint256 := tx.prevouts.map COutPoint.hash

lemma hasDescendants_iff : pool.hasDescendants txid = true ↔ (pool.children txid).Nonempty := by
  unfold hasDescendants children
  cases pool.mapDescendants.find txid with
  | none => simp
  | some children => simp [Finset.nonempty_iff_ne_empty]

lemma hasDescendants_eq_false_iff : pool.hasDescendants txid = false ↔ pool.children txid = ∅ := by
  rw [← Bool.not_eq_true, hasDescendants_iff, Finset.not_nonempty_iff_eq_empty]

lemma children_addChild : (addChild txid pool parent).children child =
    if child = parent ∧ pool.exists' parent = true then insert txid (pool.children child) else pool.children child := by
  unfold addChild
  split
  case isTrue present =>
    unfold children
    rw [find_insert]
    by_cases same : child = parent
    · simp [same, present]
    · simp [same]
  case isFalse absent => rw [if_neg fun both => absent both.2]

lemma children_removeChild : (removeChild txid pool parent).children child =
    if child = parent then (pool.children child).erase txid else pool.children child := by
  unfold removeChild children
  cases found : pool.mapDescendants.find parent with
  | none =>
    by_cases same : child = parent
    · simp [same, found]
    · simp [same]
  | some registered =>
    dsimp only
    split
    case isTrue emptied =>
      rw [find_erase]
      by_cases same : child = parent
      · simp [same, found, emptied]
      · simp [same]
    case isFalse =>
      rw [find_insert]
      by_cases same : child = parent
      · simp [same, found]
      · simp [same]

lemma addChild_frame (txid : Uint256) (pool : CTxMemPool) (parent : Uint256) :
    ∃ descendants, addChild txid pool parent = { pool with mapDescendants := descendants } := by
  unfold addChild
  split
  · exact ⟨_, rfl⟩
  · exact ⟨pool.mapDescendants, rfl⟩

lemma removeChild_frame (txid : Uint256) (pool : CTxMemPool) (parent : Uint256) :
    ∃ descendants, removeChild txid pool parent = { pool with mapDescendants := descendants } := by
  unfold removeChild
  split
  · exact ⟨pool.mapDescendants, rfl⟩
  · split
    · exact ⟨_, rfl⟩
    · exact ⟨_, rfl⟩

lemma foldl_frame {update : CTxMemPool → Uint256 → CTxMemPool}
    (frame : ∀ pool parent, ∃ descendants, update pool parent = { pool with mapDescendants := descendants })
    (parents : List Uint256) (pool : CTxMemPool) :
    ∃ descendants, parents.foldl update pool = { pool with mapDescendants := descendants } := by
  induction parents generalizing pool with
  | nil => exact ⟨pool.mapDescendants, rfl⟩
  | cons parent rest ih =>
    obtain ⟨descendants, same⟩ := frame pool parent
    obtain ⟨later, done⟩ := ih (update pool parent)
    refine ⟨later, ?_⟩
    rw [foldl_cons, done, same]

lemma updateDescendantsRemove_frame (pool : CTxMemPool) (txid : Uint256) :
    ∃ descendants, pool.updateDescendantsRemove txid = { pool with mapDescendants := descendants } := by
  unfold updateDescendantsRemove
  split
  · exact ⟨pool.mapDescendants, rfl⟩
  case h_2 entry _ =>
    obtain ⟨descendants, same⟩ := foldl_frame (removeChild_frame txid) (entry.tx.prevouts.map COutPoint.hash) pool
    rw [same]
    exact ⟨_, rfl⟩

lemma mem_children_foldl_addChild (parents : List Uint256) (pool : CTxMemPool) :
    child ∈ (parents.foldl (addChild txid) pool).children parent ↔
      child ∈ pool.children parent ∨ child = txid ∧ parent ∈ parents ∧ pool.exists' parent = true := by
  induction parents generalizing pool with
  | nil => simp
  | cons first rest ih =>
    have present : (addChild txid pool first).exists' parent = pool.exists' parent := by
      obtain ⟨descendants, same⟩ := addChild_frame txid pool first
      rw [same]
      rfl
    rw [foldl_cons, ih, present, children_addChild, mem_cons]
    by_cases here : parent = first ∧ pool.exists' first = true
    · rw [if_pos here, Finset.mem_insert]
      obtain ⟨rfl, known⟩ := here
      tauto
    · rw [if_neg here]
      constructor
      · rintro (old | ⟨rfl, inside, known⟩)
        · exact .inl old
        · exact .inr ⟨rfl, .inr inside, known⟩
      · rintro (old | ⟨rfl, rfl | inside, known⟩)
        · exact .inl old
        · exact absurd ⟨rfl, known⟩ here
        · exact .inr ⟨rfl, inside, known⟩

lemma children_foldl_removeChild (txid parent : Uint256) (parents : List Uint256) (pool : CTxMemPool) :
    (parents.foldl (removeChild txid) pool).children parent =
      if parent ∈ parents then (pool.children parent).erase txid else pool.children parent := by
  induction parents generalizing pool with
  | nil => simp
  | cons first rest ih =>
    rw [foldl_cons, ih, children_removeChild]
    by_cases here : parent = first
    · simp [here]
    · simp [here]

/-- A removed transaction is registered under its parents no more, and nothing is registered under it. -/
lemma children_updateDescendantsRemove (present : (txid, entry) ∈ pool.mapTx) :
    (pool.updateDescendantsRemove txid).children parent =
      if parent = txid then ∅ else if parent ∈ parents entry.tx then (pool.children parent).erase txid
        else pool.children parent := by
  unfold updateDescendantsRemove
  rw [find_eq_some_iff.mpr present]
  have unregistered := children_foldl_removeChild txid parent (parents entry.tx) pool
  unfold children at unregistered ⊢
  rw [find_erase]
  by_cases same : parent = txid
  · simp [same]
  · rw [if_neg same, if_neg same]
    exact unregistered

section

variable (H) (pool) (entry)

lemma insertEntry_frame : ∃ descendants, pool.insertEntry H entry =
    ⟨pool.mapTx.insert (entry.getTxHash H) entry,
      OrderedSet.insert (compareTxMemPoolEntryByFeeRate H) entry pool.setEntries,
      entry.tx.prevouts.foldl (fun spent outpoint => insert outpoint spent) pool.mapSpentOutpoints, descendants,
      pool.maxMempoolSize, pool.mempoolSize + entry.getTxSize, pool.maxMempoolCount, pool.mempoolCount + 1⟩ :=
  foldl_frame (addChild_frame _) _ _

end

lemma mapTx_insertEntry (entry : CTxMemPoolEntry) :
    (pool.insertEntry H entry).mapTx = pool.mapTx.insert (entry.getTxHash H) entry := by
  obtain ⟨descendants, same⟩ := insertEntry_frame H pool entry
  rw [same]

lemma mem_children_insertEntry : child ∈ (pool.insertEntry H entry).children parent ↔
    child ∈ pool.children parent ∨ child = entry.getTxHash H ∧ parent ∈ parents entry.tx ∧
      ((pool.mapTx.insert (entry.getTxHash H) entry).find parent).isSome = true :=
  mem_children_foldl_addChild _ _

@[simp] lemma mapTx_eraseEntry : (pool.eraseEntry H txid entry).mapTx = pool.mapTx.erase txid := by
  obtain ⟨descendants, same⟩ := pool.updateDescendantsRemove_frame txid
  rw [eraseEntry, same]

@[simp] lemma setEntries_eraseEntry : (pool.eraseEntry H txid entry).setEntries =
    OrderedSet.erase (compareTxMemPoolEntryByFeeRate H) entry pool.setEntries := by
  obtain ⟨descendants, same⟩ := pool.updateDescendantsRemove_frame txid
  rw [eraseEntry, same]

@[simp] lemma mapSpentOutpoints_eraseEntry : (pool.eraseEntry H txid entry).mapSpentOutpoints =
    entry.tx.prevouts.foldl Finset.erase pool.mapSpentOutpoints := by
  obtain ⟨descendants, same⟩ := pool.updateDescendantsRemove_frame txid
  rw [eraseEntry, same]

@[simp] lemma mempoolSize_eraseEntry : (pool.eraseEntry H txid entry).mempoolSize =
    pool.mempoolSize - entry.getTxSize := by
  obtain ⟨descendants, same⟩ := pool.updateDescendantsRemove_frame txid
  rw [eraseEntry, same]
  dsimp only
  split <;> omega

@[simp] lemma mempoolCount_eraseEntry : (pool.eraseEntry H txid entry).mempoolCount = pool.mempoolCount - 1 := by
  obtain ⟨descendants, same⟩ := pool.updateDescendantsRemove_frame txid
  rw [eraseEntry, same]
  dsimp only
  split <;> omega

@[simp] lemma maxMempoolSize_eraseEntry : (pool.eraseEntry H txid entry).maxMempoolSize = pool.maxMempoolSize := by
  obtain ⟨descendants, same⟩ := pool.updateDescendantsRemove_frame txid
  rw [eraseEntry, same]

@[simp] lemma maxMempoolCount_eraseEntry : (pool.eraseEntry H txid entry).maxMempoolCount = pool.maxMempoolCount := by
  obtain ⟨descendants, same⟩ := pool.updateDescendantsRemove_frame txid
  rw [eraseEntry, same]

@[simp] lemma children_eraseEntry : (pool.eraseEntry H txid entry).children parent =
    (pool.updateDescendantsRemove txid).children parent := rfl

lemma removeTxUnlocked_of_mem (present : (txid, entry) ∈ pool.mapTx) :
    pool.removeTxUnlocked H txid = (true, pool.eraseEntry H txid entry) := by
  rw [removeTxUnlocked, find_eq_some_iff.mpr present]

lemma removeTxUnlocked_of_absent (absent : pool.mapTx.find txid = none) :
    pool.removeTxUnlocked H txid = (false, pool) := by
  rw [removeTxUnlocked, absent]

lemma removeTxUnlocked_cases (H : HashFunctions) (pool : CTxMemPool) (txid : Uint256) :
    (∃ entry, (txid, entry) ∈ pool.mapTx ∧ pool.removeTxUnlocked H txid = (true, pool.eraseEntry H txid entry)) ∨
      pool.mapTx.find txid = none ∧ pool.removeTxUnlocked H txid = (false, pool) := by
  cases found : pool.mapTx.find txid with
  | none => exact .inr ⟨rfl, removeTxUnlocked_of_absent found⟩
  | some entry =>
    have present := find_eq_some_iff.mp found
    exact .inl ⟨entry, present, removeTxUnlocked_of_mem present⟩

lemma mapTx_removeTxUnlocked : (pool.removeTxUnlocked H txid).2.mapTx = pool.mapTx.erase txid := by
  rcases removeTxUnlocked_cases H pool txid with ⟨entry, -, done⟩ | ⟨absent, done⟩
  · rw [done, mapTx_eraseEntry]
  · rw [done, erase_of_absent (find_eq_none_iff.mp absent)]

section

variable (H) (pool)

/-- Of the registered children a removal takes away the removed one, and those of the removed one. -/
lemma children_removeTxUnlocked (txid parent : Uint256) :
    (pool.removeTxUnlocked H txid).2.children parent ⊆ pool.children parent ∧
    (parent ≠ txid → (pool.children parent).erase txid ⊆ (pool.removeTxUnlocked H txid).2.children parent) := by
  rcases removeTxUnlocked_cases H pool txid with ⟨entry, present, done⟩ | ⟨-, done⟩
  · rw [done, children_eraseEntry, children_updateDescendantsRemove present]
    refine ⟨?_, fun other => ?_⟩
    · split
      · exact Finset.empty_subset _
      · split
        · exact Finset.erase_subset _ _
        · exact Finset.Subset.refl _
    · rw [if_neg other]
      split
      · exact Finset.Subset.refl _
      · exact Finset.erase_subset _ _
  · rw [done]
    exact ⟨Finset.Subset.refl _, fun _ => Finset.erase_subset _ _⟩

end

lemma maxMempoolSize_removeTxUnlocked : (pool.removeTxUnlocked H txid).2.maxMempoolSize = pool.maxMempoolSize := by
  rcases removeTxUnlocked_cases H pool txid with ⟨entry, -, done⟩ | ⟨-, done⟩
  · rw [done, maxMempoolSize_eraseEntry]
  · rw [done]

variable (txids : List Uint256)

lemma removeAll_cons : pool.removeAll H (txid :: txids) = (pool.removeTxUnlocked H txid).2.removeAll H txids := rfl

lemma mem_mapTx_removeAll {txids : List Uint256} {item : Uint256 × CTxMemPoolEntry} :
    item ∈ (pool.removeAll H txids).mapTx ↔ item.1 ∉ txids ∧ item ∈ pool.mapTx := by
  induction txids generalizing pool with
  | nil => simp [removeAll]
  | cons txid rest ih =>
    rw [removeAll_cons, ih, mapTx_removeTxUnlocked, mem_erase, mem_cons]
    tauto

lemma maxMempoolCount_removeTxUnlocked : (pool.removeTxUnlocked H txid).2.maxMempoolCount = pool.maxMempoolCount := by
  rcases removeTxUnlocked_cases H pool txid with ⟨entry, -, done⟩ | ⟨-, done⟩
  · rw [done, maxMempoolCount_eraseEntry]
  · rw [done]

lemma maxMempoolSize_removeAll : (pool.removeAll H txids).maxMempoolSize = pool.maxMempoolSize := by
  induction txids generalizing pool with
  | nil => rfl
  | cons txid rest ih => rw [removeAll_cons, ih, maxMempoolSize_removeTxUnlocked]

lemma maxMempoolCount_removeAll : (pool.removeAll H txids).maxMempoolCount = pool.maxMempoolCount := by
  induction txids generalizing pool with
  | nil => rfl
  | cons txid rest ih => rw [removeAll_cons, ih, maxMempoolCount_removeTxUnlocked]

lemma mempoolCount_removeAll_le (H : HashFunctions) (pool : CTxMemPool) (txids : List Uint256) :
    (pool.removeAll H txids).mempoolCount ≤ pool.mempoolCount := by
  induction txids generalizing pool with
  | nil => exact le_rfl
  | cons txid rest ih =>
    rw [removeAll_cons]
    refine (ih _).trans ?_
    rcases removeTxUnlocked_cases H pool txid with ⟨entry, -, done⟩ | ⟨-, done⟩
    · rw [done, mempoolCount_eraseEntry]
      exact Nat.sub_le _ _
    · rw [done]

def evictable (H : HashFunctions) (pool : CTxMemPool) : List CTxMemPoolEntry :=
  pool.setEntries.reverse.filter fun entry => !pool.hasDescendants (entry.getTxHash H)

def totalSize (entries : List CTxMemPoolEntry) : Nat := (entries.map getTxSize).sum

lemma selectEvictions_filter (H : HashFunctions) (pool : CTxMemPool) (bytesNeeded : Nat)
    (entries : List CTxMemPoolEntry)
    (bytesFreed : Nat) : pool.selectEvictions H bytesNeeded entries bytesFreed = pool.selectEvictions H bytesNeeded
      (entries.filter fun entry => !pool.hasDescendants (entry.getTxHash H)) bytesFreed := by
  induction entries generalizing bytesFreed with
  | nil => rfl
  | cons entry rest ih =>
    cases descends : pool.hasDescendants (entry.getTxHash H) with
    | true =>
      rw [filter_cons_of_neg (by simp [descends]), selectEvictions, if_pos descends, ih]
    | false =>
      rw [filter_cons_of_pos (by simp [descends])]
      simp [selectEvictions, descends, ih (bytesFreed + entry.getTxSize)]

/-- Entries are taken from the front, and they free enough exactly if all of them would. -/
lemma selectEvictions_taken {entries : List CTxMemPoolEntry} (bytesNeeded bytesFreed : Nat)
    (childless : ∀ entry ∈ entries, pool.hasDescendants (entry.getTxHash H) = false) :
    ∃ taken, taken <+: entries ∧ pool.selectEvictions H bytesNeeded entries bytesFreed =
        (taken.map (getTxHash H), bytesFreed + totalSize taken) ∧
      (bytesNeeded ≤ bytesFreed + totalSize taken ↔ bytesNeeded ≤ bytesFreed + totalSize entries) := by
  induction entries generalizing bytesFreed with
  | nil => exact ⟨[], prefix_rfl, rfl, Iff.rfl⟩
  | cons entry rest ih =>
    have total (others : List CTxMemPoolEntry) : totalSize (entry :: others) = entry.getTxSize + totalSize others := by
      simp [totalSize]
    rw [selectEvictions, if_neg (by simp [childless entry mem_cons_self])]
    split
    case isTrue enough =>
      refine ⟨[entry], ⟨rest, rfl⟩, by simp [totalSize], ?_⟩
      rw [total, total]
      omega
    case isFalse =>
      obtain ⟨taken, front, selected, frees⟩ :=
        ih (bytesFreed + entry.getTxSize) fun other member => childless other (mem_cons_of_mem _ member)
      refine ⟨entry :: taken, cons_prefix_cons.mpr ⟨rfl, front⟩, ?_, ?_⟩
      · rw [selected, total, ← Nat.add_assoc]
        rfl
      · rw [total, total, ← Nat.add_assoc, ← Nat.add_assoc]
        exact frees

lemma mem_evictable (inside : entry ∈ pool.evictable H) :
    entry ∈ pool.setEntries ∧ pool.hasDescendants (entry.getTxHash H) = false := by
  obtain ⟨member, childless⟩ := mem_filter.mp inside
  exact ⟨mem_reverse.mp member, by simpa using childless⟩

/-- An eviction fails and changes nothing, or removes enough of the evictable entries. -/
lemma evictTransactions_cases (H : HashFunctions) (pool : CTxMemPool) (bytesNeeded : Nat) :
    (totalSize (pool.evictable H) < bytesNeeded ∧ ∃ text, pool.evictTransactions H bytesNeeded = (.error text, pool)) ∨
    bytesNeeded ≤ totalSize (pool.evictable H) ∧ ∃ taken, taken <+: pool.evictable H ∧
      taken.map (getTxHash H) = (pool.toEvict H bytesNeeded).1 ∧ bytesNeeded ≤ totalSize taken ∧
      pool.evictTransactions H bytesNeeded = (.ok (), pool.removeAll H (taken.map (getTxHash H))) := by
  obtain ⟨taken, front, selected, frees⟩ :=
    selectEvictions_taken bytesNeeded 0 fun entry (inside : entry ∈ pool.evictable H) => (mem_evictable inside).2
  rw [Nat.zero_add] at selected frees
  rw [Nat.zero_add] at frees
  unfold evictTransactions toEvict
  rw [selectEvictions_filter]
  unfold evictable at selected
  rw [selected]
  split
  case isTrue short => exact .inl ⟨not_le.mp fun enough => absurd (frees.mpr enough) (not_le.mpr short), _, rfl⟩
  case isFalse freed => exact .inr ⟨frees.mp (not_lt.mp freed), taken, front, rfl, not_lt.mp freed, rfl⟩

lemma toEvict_one {rest : List CTxMemPoolEntry} (first : pool.evictable H = entry :: rest) :
    pool.toEvict H 1 = ([entry.getTxHash H], entry.getTxSize) := by
  have childless := (mem_evictable (first ▸ mem_cons_self : entry ∈ pool.evictable H)).2
  have some_bytes : 1 ≤ entry.getTxSize := entry.tx.getSerializedSize_pos
  have selected : pool.selectEvictions H 1 (pool.evictable H) 0 = ([entry.getTxHash H], entry.getTxSize) := by
    simp [first, selectEvictions, childless, some_bytes]
  unfold evictable at selected
  rw [toEvict, selectEvictions_filter, selected]

lemma evictTransactions_one {rest : List CTxMemPoolEntry} (first : pool.evictable H = entry :: rest) :
    pool.evictTransactions H 1 = (.ok (), (pool.removeTxUnlocked H (entry.getTxHash H)).2) := by
  rw [evictTransactions, toEvict_one first]
  exact if_neg (not_lt.mpr entry.tx.getSerializedSize_pos)

end CTxMemPool

end Dilithion
