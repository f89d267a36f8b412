import Dilithion.Node.MempoolCoherence

/-! Parents of the members of a pool are confirmed or members. Removal respects registered children, but a
transaction is registered under its parents only when it is inserted, after the removals made for it: an
eviction may take a parent that has no other child, and a replacement may replace its own parent. -/

namespace Dilithion

open Lib SortedMap CTxMemPool List

structure MempoolState where
  pool : CTxMemPool
  confirmed : Finset Uint256

inductive MempoolOp where
  | addTx (currentTime : Int) (tx : Option CTransaction) (fee : CAmount) (time : Int)
      (height : UInt32) (bypassFeeCheck : Bool)
  | replaceTransaction (currentTime : Int) (tx : Option CTransaction) (fee : CAmount) (time : Int) (height : UInt32)
  | cleanupExpiredTransactions (currentTime : Int)
  | removeConfirmedTxs (blockTxs : List CTransaction)

namespace MempoolState

open CTxMemPool

def step (H : HashFunctions) (state : MempoolState) : MempoolOp → MempoolState
  | .addTx currentTime tx fee time height bypassFeeCheck =>
    { state with pool := (state.pool.addTx H currentTime tx fee time height bypassFeeCheck).2 }
  | .replaceTransaction currentTime tx fee time height =>
    { state with pool := (state.pool.replaceTransaction H currentTime tx fee time height).2 }
  | .cleanupExpiredTransactions currentTime =>
    { state with pool := state.pool.cleanupExpiredTransactions H currentTime }
  | .removeConfirmedTxs blockTxs =>
    ⟨state.pool.removeConfirmedTxs H blockTxs, state.confirmed ∪ (blockTxs.map (CTransaction.getHash H)).toFinset⟩

def run (H : HashFunctions) (start : MempoolState) (history : List MempoolOp) : MempoolState :=
  history.foldl (step H) start

variable (state : MempoolState)

def Supports (tx : CTransaction) : Prop :=
  ∀ parent ∈ parents tx, parent ∈ state.confirmed ∨ state.pool.exists' parent = true

def Closed : Prop := ∀ txid entry, (txid, entry) ∈ state.pool.mapTx → state.Supports entry.tx

def Offered : MempoolOp → Prop
  | .addTx _ (some tx) _ _ _ _ => state.Supports tx
  | .replaceTransaction _ (some tx) _ _ _ => state.Supports tx
  | _ => True

/-- No unconfirmed parent is among the entries selected for eviction, by count and then by size. -/
def Sheltered (H : HashFunctions) (pool : CTxMemPool) (confirmed : Finset Uint256) (tx : CTransaction) : Prop :=
  let counted := (pool.makeRoomByCount H).2
  let bytes := counted.mempoolSize + tx.getSerializedSize
  ∀ parent ∈ parents tx, parent ∉ confirmed →
    (pool.maxMempoolCount ≤ pool.mempoolCount → parent ∉ (pool.toEvict H 1).1) ∧
      (counted.maxMempoolSize < bytes → parent ∉ (counted.toEvict H (bytes - counted.maxMempoolSize)).1)

/-- No parent of what is offered can be removed for it: by eviction it is sheltered, and a replacement does
not replace an unconfirmed parent of its own. -/
def Safe (H : HashFunctions) (state : MempoolState) : MempoolOp → Prop
  | .addTx _ (some tx) _ _ _ _ => Sheltered H state.pool state.confirmed tx
  | .replaceTransaction _ (some tx) fee _ _ => state.pool.checkReplacement H tx fee = .ok () →
    (∀ parent ∈ parents tx, parent ∉ state.confirmed → parent ∉ state.pool.conflicts H tx) ∧
      Sheltered H (state.pool.withoutConflicts H tx) state.confirmed tx
  | _ => True

end MempoolState

namespace CTxMemPool

variable {H : HashFunctions} {pool : CTxMemPool} {confirmed : Finset Uint256} {txid parent : Uint256}

def dependencies (pool : CTxMemPool) : Dependencies Uint256 where
  member txid := pool.exists' txid = true
  needs child parent := ∃ entry, (child, entry) ∈ pool.mapTx ∧ parent ∈ parents entry.tx
  noted parent child := child ∈ pool.children parent

def Rooted (confirmed : Finset Uint256) (pool : CTxMemPool) : Prop :=
  Dependencies.Rooted (· ∈ confirmed) pool.dependencies

lemma removeTxUnlocked_removes (H : HashFunctions) (pool : CTxMemPool) (txid : Uint256) :
    Dependencies.Removes txid pool.dependencies (pool.removeTxUnlocked H txid).2.dependencies where
  member other present different := by
    obtain ⟨entry, inside⟩ := exists'_iff.mp present
    refine exists'_iff.mpr ⟨entry, ?_⟩
    rw [mapTx_removeTxUnlocked]
    exact mem_erase.mpr ⟨different, inside⟩
  needs := by
    rintro child parent ⟨entry, inside, isParent⟩
    rw [mapTx_removeTxUnlocked] at inside
    obtain ⟨different, inside⟩ := mem_erase.mp inside
    exact ⟨⟨entry, inside, isParent⟩, different⟩
  noted parent child noted otherParent otherChild :=
    (children_removeTxUnlocked H pool txid parent).2 otherParent (Finset.mem_erase.mpr ⟨otherChild, noted⟩)
  fewer parent _ noted := (children_removeTxUnlocked H pool txid parent).1 noted

lemma Rooted.removeAll (rooted : Rooted confirmed pool) (txids : List Uint256)
    (free : ∀ txid ∈ txids, txid ∈ confirmed ∨ pool.hasDescendants txid = false) :
    Rooted confirmed (pool.removeAll H txids) := by
  refine Dependencies.Rooted.foldl (removeTxUnlocked_removes H) rooted fun txid inside => ?_
  rcases free txid inside with isConfirmed | childless
  · exact .inl isConfirmed
  · refine .inr fun child noted => ?_
    rw [hasDescendants_eq_false_iff] at childless
    change child ∈ pool.children txid at noted
    rw [childless] at noted
    exact absurd noted (Finset.notMem_empty child)

variable {counted : CTxMemPool}

lemma Counted.rooted (rooted : Rooted confirmed pool) (isCounted : Counted H pool counted) :
    Rooted confirmed counted := by
  rcases isCounted with ⟨-, rfl⟩ | ⟨-, victim, rest, evictable, rfl⟩
  · exact rooted
  · refine rooted.removeAll [victim.getTxHash H] fun txid inside => .inr ?_
    rw [mem_singleton.mp inside]
    exact (mem_evictable (evictable ▸ mem_cons_self)).2

variable {txSize : Nat} {sized : CTxMemPool}

lemma Sized.rooted (rooted : Rooted confirmed pool) (isSized : Sized H pool txSize sized) :
    Rooted confirmed sized := by
  rcases isSized with ⟨-, rfl⟩ | ⟨-, taken, front, -, -, rfl⟩
  · exact rooted
  · refine rooted.removeAll _ fun txid inside => .inr ?_
    obtain ⟨entry, member, rfl⟩ := mem_map.mp inside
    exact (mem_evictable (front.subset member)).2

lemma exists'_removeAll {txids : List Uint256} (present : pool.exists' parent = true) (apart : parent ∉ txids) :
    (pool.removeAll H txids).exists' parent = true := by
  obtain ⟨entry, member⟩ := exists'_iff.mp present
  exact exists'_iff.mpr ⟨entry, mem_mapTx_removeAll.mpr ⟨apart, member⟩⟩

lemma Counted.survives (isCounted : Counted H pool counted) (present : pool.exists' parent = true)
    (spared : pool.maxMempoolCount ≤ pool.mempoolCount → parent ∉ (pool.toEvict H 1).1) :
    counted.exists' parent = true := by
  rcases isCounted with ⟨-, rfl⟩ | ⟨full, victim, rest, evictable, rfl⟩
  · exact present
  · have other := spared full
    rw [toEvict_one evictable] at other
    exact exists'_removeAll present other

lemma Sized.survives (isSized : Sized H pool txSize sized) (present : pool.exists' parent = true)
    (spared : pool.maxMempoolSize < pool.mempoolSize + txSize →
      parent ∉ (pool.toEvict H (pool.mempoolSize + txSize - pool.maxMempoolSize)).1) : sized.exists' parent = true := by
  rcases isSized with ⟨-, rfl⟩ | ⟨beyond, taken, -, selected, -, rfl⟩
  · exact present
  · exact exists'_removeAll present (selected ▸ spared beyond)

section

variable (rooted : Rooted confirmed pool)

include rooted

lemma Rooted.insertEntry {entry : CTxMemPoolEntry}
    (supported : ∀ parent ∈ parents entry.tx, parent ∈ confirmed ∨ pool.exists' parent = true) :
    Rooted confirmed (pool.insertEntry H entry) := by
  have found : ∀ parent, pool.exists' parent = true →
      ((pool.mapTx.insert (entry.getTxHash H) entry).find parent).isSome = true := by
    intro parent present
    rw [find_insert]
    split
    · rfl
    · exact present
  have member : ∀ parent, pool.exists' parent = true → (pool.insertEntry H entry).exists' parent = true := by
    intro parent present
    unfold exists'
    rw [mapTx_insertEntry]
    exact found parent present
  refine Dependencies.Rooted.adds (entry.getTxHash H) rooted
    ⟨member, ?_, fun _ _ noted => mem_children_insertEntry.mpr (.inl noted)⟩
  rintro child parent ⟨other, inside, isParent⟩
  rw [mapTx_insertEntry] at inside
  rcases mem_insert.mp inside with isNew | ⟨-, old⟩
  · cases isNew
    refine .inr ⟨rfl, (supported parent isParent).imp_right fun present => ?_⟩
    exact ⟨member parent present, mem_children_insertEntry.mpr (.inr ⟨rfl, isParent, found parent present⟩)⟩
  · exact .inl ⟨other, old, isParent⟩

lemma Rooted.offerTx (offer : Offer)
    (supported : ∀ parent ∈ parents offer.tx, parent ∈ confirmed ∨ pool.exists' parent = true)
    (sheltered : MempoolState.Sheltered H pool confirmed offer.tx) : Rooted confirmed (pool.offerTx H offer).2 := by
  rcases offerTx_cases H pool offer with ⟨-, text, done⟩ | ⟨-, -, -, text, done⟩ | ⟨-, counted,
      isCounted, -, text, done⟩ |
      ⟨-, counted, sized, isCounted, -, isSized, done⟩
  · rw [done]
    exact rooted
  · rw [done]
    exact rooted
  · rw [done]
    exact isCounted.rooted rooted
  · rw [done]
    refine (isSized.rooted (isCounted.rooted rooted)).insertEntry fun parent isParent => ?_
    by_cases isConfirmed : parent ∈ confirmed
    · exact .inl isConfirmed
    · have present := (supported parent isParent).resolve_left isConfirmed
      obtain ⟨sparedByCount, sparedBySize⟩ := sheltered parent isParent isConfirmed
      rw [← isCounted.eq] at sparedBySize
      exact .inr (isSized.survives (isCounted.survives present sparedByCount) sparedBySize)

lemma Rooted.replaceTransactionLocked {currentTime : Int} {tx : CTransaction} {fee : CAmount}
    {time : Int} {height : UInt32} (supported : ∀ parent ∈ parents tx, parent ∈ confirmed ∨ pool.exists' parent = true)
    (safe : pool.checkReplacement H tx fee = .ok () →
      (∀ parent ∈ parents tx, parent ∉ confirmed → parent ∉ pool.conflicts H tx) ∧
      MempoolState.Sheltered H (pool.withoutConflicts H tx) confirmed tx) :
    Rooted confirmed (pool.replaceTransactionLocked H currentTime tx fee time height).2 := by
  unfold CTxMemPool.replaceTransactionLocked replaceTransactionLockedWith
  cases checked : pool.checkReplacement H tx fee with
  | error text => exact rooted
  | ok value =>
    obtain ⟨unreplaced, sheltered⟩ := safe checked
    have childless := (replaceable_conflicts checked).2
    rcases removeConflicts_cases H (pool.conflicts H tx) pool with all | ⟨removed, text, front, failed⟩
    · rw [all]
      refine (rooted.removeAll _ fun txid inside => .inr (childless txid inside)).offerTx
        ⟨tx, fee, time, height, false, currentTime⟩
        (fun parent isParent => ?_) sheltered
      by_cases isConfirmed : parent ∈ confirmed
      · exact .inl isConfirmed
      · exact .inr (exists'_removeAll ((supported parent isParent).resolve_left isConfirmed)
          (unreplaced parent isParent isConfirmed))
    · rw [failed]
      exact rooted.removeAll _ fun txid inside => .inr (childless txid (front.subset inside))

end

end CTxMemPool

namespace MempoolState

open CTxMemPool

variable {H : HashFunctions} {state : MempoolState}

lemma step_rooted (rooted : Rooted state.confirmed state.pool) {op : MempoolOp} (offered : state.Offered op)
    (safe : state.Safe H op) :
    Rooted (state.step H op).confirmed (state.step H op).pool := by
  cases op with
  | addTx currentTime tx fee time height bypassFeeCheck =>
    cases tx with
    | none => exact rooted
    | some tx => exact rooted.offerTx ⟨tx, fee, time, height, bypassFeeCheck, currentTime⟩ offered safe
  | replaceTransaction currentTime tx fee time height =>
    cases tx with
    | none => exact rooted
    | some tx => exact rooted.replaceTransactionLocked offered safe
  | cleanupExpiredTransactions currentTime =>
    refine rooted.removeAll _ fun txid inside => .inr ?_
    obtain ⟨entry, expired, rfl⟩ := mem_map.mp inside
    have stale := (mem_filter.mp expired).2
    simpa using (Bool.and_eq_true_iff.mp stale).2
  | removeConfirmedTxs blockTxs =>
    have wider : Rooted (state.confirmed ∪ (blockTxs.map (CTransaction.getHash H)).toFinset) state.pool :=
      fun child parent needed above =>
        rooted child parent needed fun isConfirmed => above (Finset.mem_union_left _ isConfirmed)
    refine wider.removeAll _ fun txid inside => .inl ?_
    exact Finset.mem_union_right _ (mem_toFinset.mpr inside)

lemma Closed.of_rooted (rooted : Rooted state.confirmed state.pool) : state.Closed := by
  intro txid entry member parent isParent
  by_cases isConfirmed : parent ∈ state.confirmed
  · exact .inl isConfirmed
  · exact .inr (rooted txid parent ⟨entry, member, isParent⟩ isConfirmed).1

lemma run_rooted {start : MempoolState} (rooted : Rooted start.confirmed start.pool) {history : List MempoolOp}
    (steps : EachStep (fun earlier op => (start.run H earlier).Offered op ∧ (start.run H earlier).Safe H op) history) :
    Rooted (start.run H history).confirmed (start.run H history).pool := by
  induction history using reverseRecOn with
  | nil => exact rooted
  | append_singleton earlier op ih =>
    obtain ⟨offered, safe⟩ := steps.last
    rw [run, foldl_append]
    exact step_rooted (ih steps.front) offered safe

/-- From an empty pool, whatever its limits and whatever is confirmed to begin with: if at every step what is
offered has its parents and none of them can be removed for it, every member has its parents at every point. -/
theorem parents_of_run (maxMempoolSize maxMempoolCount : Nat) (confirmed : Finset Uint256) (history : List MempoolOp)
    (steps : EachStep (fun earlier op =>
      (run H ⟨emptyWith maxMempoolSize maxMempoolCount, confirmed⟩ earlier).Offered op ∧
        (run H ⟨emptyWith maxMempoolSize maxMempoolCount, confirmed⟩ earlier).Safe H op) history) :
    ∀ earlier later, history = earlier ++ later →
    (run H ⟨emptyWith maxMempoolSize maxMempoolCount, confirmed⟩ earlier).Closed := by
  rintro earlier later rfl
  refine .of_rooted (run_rooted ?_ steps.front)
  rintro child parent ⟨entry, inside, -⟩
  exact absurd inside (not_mem_empty _)

/-- A confirmed coin, a transaction that spends it, and one that spends that. -/
def coins : Finset Uint256 := {(sampleCoin 0).hash}

def parentTx : CTransaction := plainTx [sampleCoin 0] 1

def childTx : CTransaction := plainTx [⟨parentTx.getHash lengthHash, 0⟩] 2

def selfReplacingTx : CTransaction := plainTx [sampleCoin 0, ⟨parentTx.getHash lengthHash, 0⟩] 1

def addOp (tx : CTransaction) (fee : CAmount) : MempoolOp := .addTx 1000 (some tx) fee 1000 5 false

/-- The third transaction finds the pool full. The second is evicted for it, not its parent. -/
def shelteredAdds : List MempoolOp :=
  [addOp parentTx 20000, addOp (plainTx [sampleCoin 1] 3) 10000, addOp childTx 20000]

theorem parents_of_sheltered_adds :
    let state := run lengthHash ⟨emptyWith defaultMaxMempoolSize 2, coins⟩ shelteredAdds
    state.pool.exists' (childTx.getHash lengthHash) = true ∧ state.pool.mempoolCount = 2 ∧ state.Closed := by
  have offered (state : MempoolState) (tx : CTransaction) (fee : CAmount)
      (supported : ∀ parent ∈ parents tx, parent ∈ state.confirmed ∨ state.pool.exists' parent = true)
      (spared : ∀ parent ∈ parents tx, parent ∈ state.confirmed ∨ parent ∉ (state.pool.toEvict lengthHash 1).1)
      (room : (state.pool.makeRoomByCount lengthHash).2.mempoolSize + tx.getSerializedSize ≤
        (state.pool.makeRoomByCount lengthHash).2.maxMempoolSize) :
      state.Offered (addOp tx fee) ∧ state.Safe lengthHash (addOp tx fee) :=
    ⟨supported, fun parent isParent notConfirmed => ⟨fun _ => (spared parent isParent).resolve_left notConfirmed,
      fun beyond => absurd beyond (not_lt.mpr room)⟩⟩
  refine ⟨by decide +kernel, by decide +kernel, parents_of_run defaultMaxMempoolSize 2 coins shelteredAdds
    (((EachStep.nil.concat (offered _ _ _ ?_ ?_ ?_)).concat (offered _ _ _ ?_ ?_ ?_)).concat (offered _ _ _ ?_ ?_ ?_))
      _ []
    (append_nil _).symm⟩
  all_goals decide +kernel

set_option maxRecDepth 4000 in
theorem parent_replaced_or_evicted : (let before := run lengthHash ⟨CTxMemPool.empty, coins⟩ [addOp parentTx 10000]
      let after := before.step lengthHash (.replaceTransaction 1000 (some selfReplacingTx) 30000 1000 5)
      before.Supports selfReplacingTx ∧ after.pool.exists' (selfReplacingTx.getHash lengthHash) = true ∧
        ¬ after.Supports selfReplacingTx) ∧
    (let before := run lengthHash ⟨emptyWith defaultMaxMempoolSize 1, coins⟩ [addOp parentTx 10000]
      let after := before.step lengthHash (addOp childTx 10000)
      before.Supports childTx ∧ after.pool.exists' (childTx.getHash lengthHash) = true ∧ ¬ after.Supports childTx) := by
  unfold Supports
  refine ⟨⟨?_, ?_, ?_⟩, ?_, ?_, ?_⟩
  · decide
  · decide
  · decide
  · decide
  · decide
  · decide

end MempoolState

inductive PoolCall where
  | attempt (currentTime : Int) (admission : Admission)
  | removeTx (txid : Uint256)
  | removeConfirmedTxs (blockTxs : List CTransaction)
  | cleanupExpiredTransactions (currentTime : Int)
  | clear

namespace CTxMemPool

def clear (pool : CTxMemPool) : CTxMemPool :=
  { pool with
    mapTx := .empty
    setEntries := []
    mapSpentOutpoints := ∅
    mapDescendants := .empty
    mempoolSize := 0
    mempoolCount := 0 }

section

variable (H : HashFunctions)

def perform (pool : CTxMemPool) : PoolCall → CTxMemPool
  | .attempt currentTime admission => (pool.attempt H currentTime admission).2
  | .removeTx txid => (pool.removeTxUnlocked H txid).2
  | .removeConfirmedTxs blockTxs => pool.removeConfirmedTxs H blockTxs
  | .cleanupExpiredTransactions currentTime => pool.cleanupExpiredTransactions H currentTime
  | .clear => pool.clear

def after (maxMempoolSize maxMempoolCount : Nat) (calls : List PoolCall) : CTxMemPool :=
  calls.foldl (perform H) (emptyWith maxMempoolSize maxMempoolCount)

end

variable {H : HashFunctions} {pool : CTxMemPool}

lemma Coherent.perform (coherent : Coherent H pool) (call : PoolCall) : Coherent H (pool.perform H call) := by
  cases call with
  | attempt currentTime admission => exact coherent.attempt currentTime admission
  | removeTx txid => exact coherent.removeTxUnlocked txid
  | removeConfirmedTxs blockTxs => exact coherent.removeAll _
  | cleanupExpiredTransactions currentTime => exact coherent.removeAll _
  | clear => exact coherent_emptyWith coherent.addressable pool.maxMempoolCount

lemma Coherent.perm (coherent : Coherent H pool) : pool.setEntries.Perm (pool.mapTx.entries.map Prod.snd) := by
  have single : (pool.mapTx.entries.map Prod.snd).Nodup := by
    refine pool.mapTx.nodup_entries.map_on fun first inFirst second inSecond same => ?_
    refine Prod.ext ?_ same
    rw [← coherent.keyed first.1 first.2 inFirst, same, coherent.keyed second.1 second.2 inSecond]
  refine (List.perm_ext_iff_of_nodup coherent.setEntries_nodup single).mpr fun entry => ?_
  rw [coherent.listed, List.mem_map]
  constructor
  · exact fun member => ⟨_, member, rfl⟩
  · rintro ⟨⟨txid, entry⟩, member, rfl⟩
    exact coherent.keyed txid entry member ▸ member

/-- The registered children of the members are the members that spend an output of theirs. -/
def Tracked (pool : CTxMemPool) : Prop :=
  ∀ parent child, child ∈ pool.children parent ↔ pool.exists' parent = true ∧ pool.dependencies.needs child parent

/-- The checks pass, and there is room or it can be made. -/
def Admits (H : HashFunctions) (pool : CTxMemPool) (offer : Offer) : Prop :=
  pool.Acceptable H offer ∧ ∃ counted, Counted H pool counted ∧ ¬ Starved H counted offer.tx.getSerializedSize

/-- No member spends an output of a transaction that is admitted. -/
def NoneWaits (H : HashFunctions) (pool : CTxMemPool) : PoolCall → Prop
  | .attempt currentTime (.addTx (some tx) fee time height bypassFeeCheck) =>
    pool.Admits H ⟨tx, fee, time, height, bypassFeeCheck, currentTime⟩ →
      ∀ child, ¬ pool.dependencies.needs child (tx.getHash H)
  | .attempt currentTime (.replaceTransaction (some tx) fee time height) => pool.checkReplacement H tx fee = .ok () →
    (pool.withoutConflicts H tx).Admits H ⟨tx, fee, time, height, false, currentTime⟩ →
      ∀ child, ¬ (pool.withoutConflicts H tx).dependencies.needs child (tx.getHash H)
  | _ => True

lemma tracked_emptyWith (maxMempoolSize maxMempoolCount : Nat) :
    Tracked (emptyWith maxMempoolSize maxMempoolCount) := by
  intro parent child
  refine ⟨fun inside => absurd inside (Finset.notMem_empty _), ?_⟩
  rintro ⟨-, entry, inside, -⟩
  exact absurd inside (not_mem_empty _)

namespace Tracked

variable (tracked : Tracked pool)

include tracked

lemma removeTxUnlocked (txid : Uint256) : Tracked (pool.removeTxUnlocked H txid).2 := by
  rcases removeTxUnlocked_cases H pool txid with ⟨entry, present, done⟩ | ⟨-, done⟩
  · rw [done]
    intro parent child
    rw [children_eraseEntry, children_updateDescendantsRemove present]
    unfold exists' dependencies
    rw [mapTx_eraseEntry, find_erase]
    by_cases same : parent = txid
    · simp [same]
    · rw [if_neg same, if_neg same]
      have before := tracked parent child
      unfold exists' dependencies at before
      simp only [mem_erase]
      split
      case isTrue spends =>
        rw [Finset.mem_erase, before]
        tauto
      case isFalse apart =>
        rw [before]
        refine and_congr_right fun _ => exists_congr fun other => ?_
        refine ⟨fun needs => ⟨⟨?_, needs.1⟩, needs.2⟩, fun needs => ⟨needs.1.2, needs.2⟩⟩
        rintro rfl
        exact apart (eq_of_mem needs.1 present ▸ needs.2)
  · rw [done]
    exact tracked

lemma removeAll (txids : List Uint256) : Tracked (pool.removeAll H txids) := by
  induction txids generalizing pool with
  | nil => exact tracked
  | cons txid rest ih => exact ih (tracked.removeTxUnlocked txid)

lemma insertEntry {entry : CTxMemPoolEntry} (absent : pool.mapTx.find (entry.getTxHash H) = none)
    (fresh : ∀ child, ¬ pool.dependencies.needs child (entry.getTxHash H)) : Tracked (pool.insertEntry H entry) := by
  intro parent child
  rw [mem_children_insertEntry, tracked]
  unfold exists' dependencies
  rw [mapTx_insertEntry, find_insert]
  simp only [mem_insert]
  constructor
  · rintro (⟨present, other, inside, spends⟩ | ⟨rfl, spends, present⟩)
    · refine ⟨?_, other, .inr ⟨?_, inside⟩, spends⟩
      · split
        · rfl
        · exact present
      · rintro rfl
        exact find_eq_none_iff.mp absent other inside
    · exact ⟨present, entry, .inl rfl, spends⟩
  · rintro ⟨present, other, isNew | ⟨-, inside⟩, spends⟩
    · cases isNew
      exact .inr ⟨rfl, spends, present⟩
    · refine .inl ⟨?_, other, inside, spends⟩
      rwa [if_neg] at present
      rintro rfl
      exact fresh child ⟨other, inside, spends⟩

lemma offerTx (offer : Offer)
    (fresh : pool.Admits H offer → ∀ child, ¬ pool.dependencies.needs child (offer.tx.getHash H)) :
    Tracked (pool.offerTx H offer).2 := by
  have ofCounted {counted : CTxMemPool} (isCounted : Counted H pool counted) : Tracked counted := by
    rcases isCounted with ⟨-, rfl⟩ | ⟨-, victim, -, -, rfl⟩
    · exact tracked
    · exact tracked.removeTxUnlocked _
  rcases offerTx_cases H pool offer with ⟨-, text, done⟩ | ⟨-, -, -, text, done⟩ | ⟨-, counted,
      isCounted, -, text, done⟩ |
      ⟨acceptable, counted, sized, isCounted, fed, isSized, done⟩
  · rw [done]
    exact tracked
  · rw [done]
    exact tracked
  · rw [done]
    exact ofCounted isCounted
  · rw [done]
    have shrinks := isCounted.shrinks.trans isSized.shrinks
    have left : Tracked sized := by
      rcases isSized with ⟨-, rfl⟩ | ⟨-, taken, -, -, -, rfl⟩
      · exact ofCounted isCounted
      · exact (ofCounted isCounted).removeAll _
    refine left.insertEntry ?_ ?_
    · refine find_eq_none_iff.mpr fun found inside => ?_
      exact find_eq_none_iff.mp (not_exists'_iff.mp acceptable.absent) found (shrinks _ inside)
    · rintro child ⟨entry, inside, spends⟩
      exact fresh ⟨acceptable, counted, isCounted, fed⟩ child ⟨entry, shrinks _ inside, spends⟩

lemma perform (coherent : Coherent H pool) {call : PoolCall} (free : pool.NoneWaits H call) :
    Tracked (pool.perform H call) := by
  cases call with
  | attempt currentTime admission =>
    cases admission with
    | addTx tx fee time height bypassFeeCheck =>
      cases tx with
      | none => exact tracked
      | some tx => exact tracked.offerTx ⟨tx, fee, time, height, bypassFeeCheck, currentTime⟩ free
    | replaceTransaction tx fee time height =>
      cases tx with
      | none => exact tracked
      | some tx =>
        have outcome := coherent.replaceTransactionLocked_cases currentTime tx fee time height
        change Tracked (pool.replaceTransactionLocked H currentTime tx fee time height).2
        rcases outcome with ⟨text, -, done⟩ | ⟨checked, done⟩
        · rw [done]
          exact tracked
        · rw [done]
          exact (tracked.removeAll _).offerTx _ (free checked)
  | removeTx txid => exact tracked.removeTxUnlocked txid
  | removeConfirmedTxs blockTxs => exact tracked.removeAll _
  | cleanupExpiredTransactions currentTime => exact tracked.removeAll _
  | clear => exact tracked_emptyWith _ _

end Tracked

section

variable {maxMempoolSize : Nat} (addressable : maxMempoolSize ≤ sizeMax) (maxMempoolCount : Nat)

include addressable

lemma coherent_after (calls : List PoolCall) : Coherent H (after H maxMempoolSize maxMempoolCount calls) := by
  induction calls using List.reverseRecOn with
  | nil => exact coherent_emptyWith addressable maxMempoolCount
  | append_singleton earlier call ih =>
    rw [after, List.foldl_append]
    exact ih.perform call

theorem children_of_calls {calls : List PoolCall}
    (steps : EachStep (fun earlier call => (after H maxMempoolSize maxMempoolCount earlier).NoneWaits H call) calls)
    {txid : Uint256} (member : (after H maxMempoolSize maxMempoolCount calls).exists' txid = true) :
    (after H maxMempoolSize maxMempoolCount calls).hasDescendants txid = true ↔
      ∃ child, (after H maxMempoolSize maxMempoolCount calls).dependencies.needs child txid := by
  suffices tracked : Tracked (after H maxMempoolSize maxMempoolCount calls) by
    rw [hasDescendants_iff]
    exact exists_congr fun child => (tracked txid child).trans (and_iff_right member)
  clear member
  induction calls using List.reverseRecOn with
  | nil => exact tracked_emptyWith _ _
  | append_singleton earlier call ih =>
    have coherent := coherent_after addressable maxMempoolCount earlier (H := H)
    rw [after, List.foldl_append]
    exact (ih steps.front).perform coherent steps.last

end

def twoAdds : List PoolCall := [MempoolState.parentTx, MempoolState.childTx].map fun tx =>
  .attempt 1000 (.addTx (some tx) 10000 1000 5 false)

theorem children_of_two_adds : (after lengthHash defaultMaxMempoolSize defaultMaxMempoolCount twoAdds).hasDescendants
    (MempoolState.parentTx.getHash lengthHash) = true ↔
    ∃ child, (after lengthHash defaultMaxMempoolSize defaultMaxMempoolCount
      twoAdds).dependencies.needs child (MempoolState.parentTx.getHash lengthHash) := by
  refine children_of_calls (by decide) defaultMaxMempoolCount ((EachStep.nil.concat ?_).concat ?_) (by decide)
  · rintro - child ⟨entry, inside, -⟩
    exact absurd inside (not_mem_empty _)
  · rintro - child ⟨entry, inside, spends⟩
    exact (by decide : ∀ item ∈ (after lengthHash defaultMaxMempoolSize defaultMaxMempoolCount
      (twoAdds.take 1)).mapTx.entries,
      MempoolState.childTx.getHash lengthHash ∉ parents item.2.tx) _ inside spends

/-- The parent is confirmed and comes back while its child is still there. -/
def returnedParent : List PoolCall := twoAdds ++ .removeConfirmedTxs [MempoolState.parentTx] :: twoAdds.take 1

set_option maxRecDepth 4000 in
theorem returned_parent_without_children :
    let pool := after lengthHash defaultMaxMempoolSize defaultMaxMempoolCount returnedParent
    let parent := MempoolState.parentTx.getHash lengthHash
    pool.exists' parent = true ∧ pool.hasDescendants parent = false ∧
        ∃ item ∈ pool.mapTx.entries, parent ∈ parents item.2.tx := by
  decide

end CTxMemPool

end Dilithion
