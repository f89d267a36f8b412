import Dilithion.Node.MempoolCoherence
import Dilithion.Node.UtxoApply

/-! The pool along the active chain. A connected block takes its own transactions out of the pool, by
hash; what spends the same coins stays. A disconnected block offers its transactions back, with no fee and
at the height below it. -/

namespace Dilithion

open Lib CBlockValidator CTransaction List SortedMap

namespace CTxMemPool

/-- `ConnectTip`, after the block has been applied. A block that does not decode is passed over. -/
def connectTip (H : HashFunctions) (pool : CTxMemPool) (block : CBlock) : CTxMemPool :=
  match deserializeBlockTransactions block with
  | .ok blockTxs => pool.removeConfirmedTxs H blockTxs
  | .error _ => pool

def returnTx (H : HashFunctions) (currentTime : Int) (disconnectHeight : Int32) (pool : CTxMemPool)
    (tx : CTransaction) : CTxMemPool :=
  if tx.isCoinBase then pool
  else (pool.addTx H currentTime (some tx) 0 currentTime (disconnectHeight - 1).toUInt32 true).2

def disconnectTip (H : HashFunctions) (pool : CTxMemPool) (currentTime : Int) (block : CBlock)
    (disconnectHeight : Int32) : CTxMemPool :=
  match deserializeBlockTransactions block with
  | .ok blockTxs => blockTxs.foldl (returnTx H currentTime disconnectHeight) pool
  | .error _ => pool

variable {H : HashFunctions} {pool : CTxMemPool} {item : Uint256 × CTxMemPoolEntry}

lemma mem_offerTx (offer : Offer) (inside : item ∈ (pool.offerTx H offer).2.mapTx) :
    item ∈ pool.mapTx ∨ item = (offer.tx.getHash H, offer.entry) ∧ pool.Acceptable H offer := by
  rcases offerTx_cases H pool offer with ⟨-, text, done⟩ | ⟨-, -, -, text, done⟩ | ⟨-, counted,
      isCounted, -, text, done⟩ |
      ⟨acceptable, counted, sized, isCounted, -, isSized, done⟩
  · rw [done] at inside
    exact .inl inside
  · rw [done] at inside
    exact .inl inside
  · rw [done] at inside
    exact .inl (isCounted.shrinks _ inside)
  · rw [done, mapTx_insertEntry] at inside
    rcases mem_insert.mp inside with isNew | ⟨-, old⟩
    · exact .inr ⟨isNew, acceptable⟩
    · exact .inl ((isCounted.shrinks.trans isSized.shrinks) _ old)

variable {blockTxs : List CTransaction}

lemma mem_foldl_returnTx {currentTime : Int} {disconnectHeight : Int32}
    (inside : item ∈ (blockTxs.foldl (returnTx H currentTime disconnectHeight) pool).mapTx) :
    item ∈ pool.mapTx ∨ (∃ tx ∈ blockTxs, tx.isCoinBase = false ∧
      item = (tx.getHash H, ⟨tx, 0, currentTime, (disconnectHeight - 1).toUInt32⟩)) ∧
      disconnectHeight ≠ 1 ∧ 0 < currentTime := by
  induction blockTxs generalizing pool with
  | nil => exact .inl inside
  | cons tx rest ih =>
    rcases ih inside with early | ⟨⟨other, member, known⟩, sound⟩
    · unfold returnTx at early
      split at early
      case isTrue => exact .inl early
      case isFalse ordinary =>
        rcases mem_offerTx ⟨tx, 0, currentTime, (disconnectHeight - 1).toUInt32, true, currentTime⟩ early with
          old | ⟨isNew, acceptable⟩
        · exact .inl old
        · refine .inr ⟨⟨tx, mem_cons_self, by simpa using ordinary, isNew⟩, ?_, acceptable.time⟩
          rintro rfl
          exact acceptable.height (by decide : ((1 : Int32) - 1).toUInt32 = 0)
    · exact .inr ⟨⟨other, mem_cons_of_mem _ member, known⟩, sound⟩

lemma mem_removeConfirmedTxs : item ∈ (pool.removeConfirmedTxs H blockTxs).mapTx ↔
    item.1 ∉ blockTxs.map (getHash H) ∧ item ∈ pool.mapTx := mem_mapTx_removeAll

end CTxMemPool

def spentBy (block : CBlock) : List COutPoint :=
  match deserializeBlockTransactions block with
  | .ok blockTxs => (blockTxs.filter fun tx => !tx.isCoinBase).flatMap prevouts
  | .error _ => []

def spentOn (blocks : List CBlock) : List COutPoint := blocks.flatMap spentBy

structure MempoolChain where
  blocks : List CBlock
  pool : CTxMemPool

inductive MempoolChainOp where
  | connectTip (block : CBlock)
  | disconnectTip (currentTime : Int)
  | addTx (currentTime : Int) (tx : CTransaction) (fee : CAmount) (time : Int) (height : UInt32) (bypassFeeCheck : Bool)

namespace MempoolChain

open CTxMemPool

def empty : MempoolChain := ⟨[], .empty⟩

def step (H : HashFunctions) (chain : MempoolChain) : MempoolChainOp → MempoolChain
  | .connectTip block => ⟨block :: chain.blocks, chain.pool.connectTip H block⟩
  | .disconnectTip currentTime =>
    match chain.blocks with
    | [] => chain
    | block :: below => ⟨below, chain.pool.disconnectTip H currentTime block (Int32.ofNat below.length)⟩
  | .addTx currentTime tx fee time height bypassFeeCheck =>
    { chain with pool := (chain.pool.addTx H currentTime (some tx) fee time height bypassFeeCheck).2 }

def run (H : HashFunctions) (history : List MempoolChainOp) : MempoolChain := history.foldl (step H) .empty

lemma run_concat (H : HashFunctions) (history : List MempoolChainOp) (op : MempoolChainOp) :
    run H (history ++ [op]) = (run H history).step H op := by
  simp [run]

/-- Blocks and transactions are valid when they come: they spend nothing the active chain has spent. -/
def Valid (chain : MempoolChain) : MempoolChainOp → Prop
  | .connectTip block => ∀ outpoint ∈ spentBy block, outpoint ∉ spentOn chain.blocks
  | .disconnectTip _ => True
  | .addTx _ tx _ _ _ _ => ∀ outpoint ∈ tx.prevouts, outpoint ∉ spentOn chain.blocks

def Spendable (chain : MempoolChain) : Prop :=
  ∀ txid entry, (txid, entry) ∈ chain.pool.mapTx → ∀ outpoint ∈ entry.tx.prevouts, outpoint ∉ spentOn chain.blocks

/-- Every member that spends what the block spends is a transaction of the block. -/
def Unopposed (H : HashFunctions) (chain : MempoolChain) (block : CBlock) : Prop :=
  ∀ txid entry, (txid, entry) ∈ chain.pool.mapTx → ∀ outpoint ∈ entry.tx.prevouts, outpoint ∈ spentBy block →
    ∃ blockTxs, deserializeBlockTransactions block = .ok blockTxs ∧ txid ∈ blockTxs.map (getHash H)

def Separate : List CBlock → Prop
  | [] => True
  | block :: below => (∀ outpoint ∈ spentBy block, outpoint ∉ spentOn below) ∧ Separate below

variable {H : HashFunctions} {chain : MempoolChain} {block : CBlock}

lemma mem_connectTip {pool : CTxMemPool} {txid : Uint256} {entry : CTxMemPoolEntry} :
    (txid, entry) ∈ (pool.connectTip H block).mapTx ↔
    (txid, entry) ∈ pool.mapTx ∧ ¬ ∃ blockTxs, deserializeBlockTransactions block = .ok blockTxs ∧
      txid ∈ blockTxs.map (getHash H) := by
  unfold CTxMemPool.connectTip
  cases deserializeBlockTransactions block with
  | error text => simp
  | ok blockTxs =>
    rw [mem_removeConfirmedTxs, and_comm]
    simp

lemma unopposed_of_connectTip (after : (chain.step H (.connectTip block)).Spendable) : chain.Unopposed H block := by
  intro txid entry member outpoint inside spent
  by_contra kept
  exact after txid entry (mem_connectTip.mpr ⟨member, kept⟩) outpoint inside (mem_append_left _ spent)

section

variable (spendable : chain.Spendable)

include spendable

lemma connectTip_spendable (unopposed : chain.Unopposed H block) : (chain.step H (.connectTip block)).Spendable := by
  intro txid entry member outpoint inside spent
  obtain ⟨before, kept⟩ := mem_connectTip.mp member
  rcases mem_append.mp spent with here | below
  · exact kept (unopposed txid entry before outpoint inside here)
  · exact spendable txid entry before outpoint inside below

lemma addTx_spendable {currentTime : Int} {tx : CTransaction} {fee : CAmount} {time : Int}
    {height : UInt32} {bypassFeeCheck : Bool}
    (valid : ∀ outpoint ∈ tx.prevouts, outpoint ∉ spentOn chain.blocks) :
    (chain.step H (.addTx currentTime tx fee time height bypassFeeCheck)).Spendable := by
  intro txid entry member outpoint inside
  rcases mem_offerTx ⟨tx, fee, time, height, bypassFeeCheck, currentTime⟩ member with old | ⟨isNew, -⟩
  · exact spendable txid entry old outpoint inside
  · cases isNew
    exact valid outpoint inside

lemma disconnectTip_spendable (separate : Separate chain.blocks) (currentTime : Int) :
    (chain.step H (.disconnectTip currentTime)).Spendable := by
  intro txid entry member outpoint inside spent
  unfold step at member spent
  cases blocks : chain.blocks with
  | nil =>
    simp only [blocks] at member spent
    exact spendable txid entry member outpoint inside (blocks ▸ spent)
  | cons block below =>
    simp only [blocks] at member spent
    rw [blocks] at separate
    unfold CTxMemPool.disconnectTip at member
    cases decoded : deserializeBlockTransactions block with
    | error text =>
      simp only [decoded] at member
      refine spendable txid entry member outpoint inside ?_
      rw [blocks]
      exact mem_append_right _ spent
    | ok blockTxs =>
      simp only [decoded] at member
      rcases mem_foldl_returnTx member with old | ⟨⟨tx, returned, ordinary, isNew⟩, -⟩
      · refine spendable txid entry old outpoint inside ?_
        rw [blocks]
        exact mem_append_right _ spent
      · cases isNew
        refine separate.1 outpoint ?_ spent
        unfold spentBy
        rw [decoded]
        exact mem_flatMap.mpr ⟨tx, mem_filter.mpr ⟨returned, by simp [ordinary]⟩, inside⟩

end

lemma separate_step (separate : Separate chain.blocks) {op : MempoolChainOp} (valid : chain.Valid op) :
    Separate (chain.step H op).blocks := by
  cases op with
  | connectTip block => exact ⟨valid, separate⟩
  | disconnectTip currentTime =>
    unfold step
    cases blocks : chain.blocks with
    | nil =>
      trivial
    | cons block below =>
      rw [blocks] at separate
      exact separate.2
  | addTx => exact separate

variable {history : List MempoolChainOp}

lemma run_separate (valid : EachStep (fun earlier op => (run H earlier).Valid op) history) :
    Separate (run H history).blocks := by
  induction history using reverseRecOn with
  | nil => trivial
  | append_singleton earlier op ih =>
    rw [run_concat]
    exact separate_step (ih valid.front) valid.last

/-- Where a step connects a block, no member outside the block spends what it spends. -/
def Clear (H : HashFunctions) (chain : MempoolChain) (op : MempoolChainOp) : Prop :=
  ∀ block, op = .connectTip block → chain.Unopposed H block

lemma run_spendable (valid : EachStep (fun earlier op => (run H earlier).Valid op) history)
    (clear : EachStep (fun earlier op => (run H earlier).Clear H op) history) : (run H history).Spendable := by
  induction history using reverseRecOn with
  | nil => exact fun txid entry member => absurd member (not_mem_empty _)
  | append_singleton earlier op ih =>
    have before := ih valid.front clear.front
    rw [run_concat]
    cases op with
    | connectTip block => exact connectTip_spendable before (clear.last block rfl)
    | disconnectTip currentTime => exact disconnectTip_spendable before (run_separate valid.front) currentTime
    | addTx currentTime tx fee time height bypassFeeCheck => exact addTx_spendable before valid.last

/-- In a run of valid blocks and transactions no connected block leaves a member that spends what the chain has
spent, exactly if no block meets a member outside it that spends what it spends. -/
theorem spendable_after_connects_iff (history : List MempoolChainOp)
    (valid : EachStep (fun earlier op => (run H earlier).Valid op) history) :
    EachStep (fun earlier op => ∀ block, op = .connectTip block → (run H (earlier ++ [op])).Spendable) history ↔
      EachStep (fun earlier op => (run H earlier).Clear H op) history := by
  constructor
  · rintro after earlier op later split block rfl
    have spendable := after earlier (.connectTip block) later split block rfl
    rw [run_concat] at spendable
    exact unopposed_of_connectTip spendable
  · rintro clear earlier op later rfl block rfl
    rw [append_cons] at valid clear
    exact run_spendable valid.front clear.front

open CUTXOSet

def reward : COutPoint := ⟨rewardTx.getHash lengthHash, 0⟩

def payment : CTransaction := plainTx [reward] 1

def rivalPayment : CTransaction := plainTx [reward] 2

/-- The reward is confirmed, a payment of it enters the pool, and a block confirms another payment of it. -/
def doubleSpendRun : List MempoolChainOp :=
  [.connectTip (blockOf .null [rewardTx]), .addTx 1000 payment 10000 1000 5 false,
    .connectTip (blockOf .null [rewardTx, rivalPayment])]

set_option maxRecDepth 4000 in
lemma doubleSpendRun_valid : EachStep (fun earlier op => (run lengthHash earlier).Valid op) doubleSpendRun := by
  refine ((EachStep.nil.concat ?_).concat ?_).concat ?_
  · exact (by decide : ∀ outpoint ∈ spentBy (blockOf .null [rewardTx]), outpoint ∉ spentOn [])
  · exact (by decide : ∀ outpoint ∈ payment.prevouts, outpoint ∉ spentOn [blockOf .null [rewardTx]])
  · exact (by decide : ∀ outpoint ∈ spentBy (blockOf .null [rewardTx, rivalPayment]),
      outpoint ∉ spentOn [blockOf .null [rewardTx]])

theorem doubleSpendRun_connects :
    EachStep (fun earlier op => ∀ block, op = .connectTip block →
      (run lengthHash (earlier ++ [op])).Spendable) doubleSpendRun ↔
      EachStep (fun earlier op => (run lengthHash earlier).Clear lengthHash op) doubleSpendRun :=
  spendable_after_connects_iff doubleSpendRun doubleSpendRun_valid

set_option maxRecDepth 4000 in
theorem confirmed_double_spend_stays : EachStep (fun earlier op => (run lengthHash earlier).Valid op) doubleSpendRun ∧
    (run lengthHash doubleSpendRun).pool.exists' (payment.getHash lengthHash) = true ∧
    reward ∈ payment.prevouts ∧ reward ∈ spentBy (blockOf .null [rewardTx, rivalPayment]) ∧
    ¬ (run lengthHash doubleSpendRun).Spendable := by
  have spent : reward ∈ spentBy (blockOf .null [rewardTx, rivalPayment]) := by decide
  have stays : (run lengthHash doubleSpendRun).pool.mapTx.find (payment.getHash lengthHash) =
    some ⟨payment, 10000, 1000, 5⟩ := by decide
  refine ⟨doubleSpendRun_valid, ?_, mem_cons_self, spent, fun spendable => ?_⟩
  · rfl
  · exact spendable _ _ (find_eq_some_iff.mp stays) reward mem_cons_self (mem_append_left _ spent)

end MempoolChain

end Dilithion

namespace Dilithion.CTxMemPool

open Lib SortedMap List

variable {H : HashFunctions} {pool current : CTxMemPool} {txid : Uint256} {currentTime : Int} {disconnectHeight : Int32}
  {tx : CTransaction} {blockTxs : List CTransaction}

lemma eq_one_of_below_eq_zero (zero : (disconnectHeight - 1).toUInt32 = 0) : disconnectHeight = 1 := by
  have below : (disconnectHeight - 1).toBitVec = 0#32 := congrArg UInt32.toBitVec zero
  rw [Int32.toBitVec_sub] at below
  apply Int32.toBitVec_inj.mp
  bv_omega

structure Within (H : HashFunctions) (pool current : CTxMemPool) : Prop where
  coherent : Coherent H current
  maxSize : current.maxMempoolSize = pool.maxMempoolSize
  maxCount : current.maxMempoolCount = pool.maxMempoolCount
  known : ∀ txid entry, (txid, entry) ∈ current.mapTx → ∃ old, (txid, old) ∈ pool.mapTx ∧ old.tx = entry.tx

def transactions (pool : CTxMemPool) : SortedMap Uint256 CTransaction := pool.mapTx.mapValues CTxMemPoolEntry.tx

lemma Coherent.size_eq_weight (coherent : Coherent H pool) :
    pool.mempoolSize = pool.transactions.weight CTransaction.getSerializedSize := by
  rw [coherent.size]
  unfold totalSize transactions weight mapValues
  rw [map_map, map_map]
  rfl

lemma Coherent.count_eq_weight (coherent : Coherent H pool) :
    pool.mempoolCount = pool.transactions.weight fun _ => 1 := by
  rw [coherent.count]
  unfold transactions weight mapValues
  simp [Function.comp_def]

variable {old : CTxMemPoolEntry}

lemma Within.room (within : Within H pool current) (coherent : Coherent H pool)
    (member : (txid, old) ∈ pool.mapTx) (absent : current.mapTx.find txid = none) :
    current.mempoolCount < current.maxMempoolCount ∧ current.mempoolSize + old.tx.getSerializedSize ≤
      current.maxMempoolSize := by
  have narrower : ∀ item, item ∈ current.transactions → item ∈ pool.transactions := by
    rintro ⟨key, found⟩ inside
    obtain ⟨entry, inCurrent, rfl⟩ := mem_mapValues.mp inside
    exact mem_mapValues.mpr (within.known key entry inCurrent)
  have inPool : (txid, old.tx) ∈ pool.transactions := mem_mapValues.mpr ⟨old, member, rfl⟩
  have missing : current.transactions.find txid = none := by
    refine find_eq_none_iff.mpr fun found inside => ?_
    obtain ⟨entry, inCurrent, -⟩ := mem_mapValues.mp inside
    exact find_eq_none_iff.mp absent entry inCurrent
  have counts := weight_add_le narrower inPool missing fun _ => 1
  have sizes := weight_add_le narrower inPool missing CTransaction.getSerializedSize
  rw [← within.coherent.count_eq_weight, ← coherent.count_eq_weight] at counts
  rw [← within.coherent.size_eq_weight, ← coherent.size_eq_weight] at sizes
  rw [within.maxSize, within.maxCount]
  have countLimit := coherent.countLimit
  have sizeLimit := coherent.sizeLimit
  exact ⟨by omega, by omega⟩

def returnOffer (currentTime : Int) (disconnectHeight : Int32) (tx : CTransaction) : Offer :=
  ⟨tx, 0, currentTime, (disconnectHeight - 1).toUInt32, true, currentTime⟩

lemma returnTx_of_ordinary (ordinary : tx.isCoinBase = false) :
    returnTx H currentTime disconnectHeight pool tx =
      (pool.offerTx H (returnOffer currentTime disconnectHeight tx)).2 := by
  unfold returnTx
  rw [if_neg (by simp [ordinary])]
  rfl

section

variable (within : Within H pool current)

include within

lemma Within.acceptable (coherent : Coherent H pool)
    (member : (old.tx.getHash H, old) ∈ pool.mapTx) (absent : current.mapTx.find (old.tx.getHash H) = none)
    (height : disconnectHeight ≠ 1) (time : 0 < currentTime) :
    current.Acceptable H (returnOffer currentTime disconnectHeight old.tx) where
  notCoinBase := (coherent.admitted _ old member).1
  absent := not_exists'_iff.mpr absent
  unspent := by
    intro outpoint inside spent
    obtain ⟨key, entry, inCurrent, spends⟩ := (within.coherent.spent outpoint).mp spent
    obtain ⟨other, inPool, same⟩ := within.known key entry inCurrent
    have sameKey := coherent.apart key other _ old outpoint inPool member (same ▸ spends) inside
    exact find_eq_none_iff.mp absent entry (sameKey ▸ inCurrent)
  fee := (by decide : (0 : CAmount) ≤ 0)
  time := time
  notFuture := by
    change currentTime ≤ currentTime + maxTimeSkew
    unfold maxTimeSkew
    omega
  height zero := height (eq_one_of_below_eq_zero zero)
  paid := .inl rfl
  size := (coherent.admitted _ old member).2
  noOverflow := by
    have room := (within.room coherent member absent).2
    have addressable := within.coherent.addressable
    change current.mempoolSize ≤ sizeMax - old.tx.getSerializedSize
    omega

lemma Within.insertEntry {entry : CTxMemPoolEntry}
    (member : (entry.getTxHash H, old) ∈ pool.mapTx) (same : old.tx = entry.tx)
    (coherent : Coherent H (current.insertEntry H entry)) :
    Within H pool (current.insertEntry H entry) := by
  obtain ⟨descendants, frame⟩ := insertEntry_frame H current entry
  rw [frame] at coherent ⊢
  refine ⟨coherent, within.maxSize, within.maxCount, fun key found inside => ?_⟩
  rcases mem_insert.mp inside with isNew | ⟨-, before⟩
  · cases isNew
    exact ⟨old, member, same⟩
  · exact within.known key found before

/-- A transaction of the pool that is offered back is there afterwards, and nothing goes for it. -/
lemma Within.returnTx (coherent : Coherent H pool)
    (member : (old.tx.getHash H, old) ∈ pool.mapTx) (height : disconnectHeight ≠ 1) (time : 0 < currentTime) :
    Within H pool (returnTx H currentTime disconnectHeight current old.tx) ∧
      (∀ item, item ∈ current.mapTx → item ∈ (returnTx H currentTime disconnectHeight current old.tx).mapTx) ∧
      (returnTx H currentTime disconnectHeight current old.tx).exists' (old.tx.getHash H) = true := by
  have ordinary := (coherent.admitted _ old member).1
  rw [returnTx_of_ordinary ordinary]
  cases found : current.mapTx.find (old.tx.getHash H) with
  | some entry =>
    -- It is back already: the offer is refused.
    have known : current.exists' (old.tx.getHash H) = true := exists'_iff.mpr ⟨entry, find_eq_some_iff.mp found⟩
    have refused : ¬ current.Acceptable H (returnOffer currentTime disconnectHeight old.tx) := by
      intro acceptable
      have absent : current.exists' (old.tx.getHash H) = false := acceptable.absent
      rw [absent] at known
      cases known
    rcases offerTx_cases H current (returnOffer currentTime disconnectHeight old.tx) with
      ⟨-, text, done⟩ | ⟨acceptable, -⟩ | ⟨acceptable, -⟩ | ⟨acceptable, -⟩
    · rw [done]
      exact ⟨within, fun _ inside => inside, known⟩
    · exact absurd acceptable refused
    · exact absurd acceptable refused
    · exact absurd acceptable refused
  | none =>
    obtain ⟨countFits, sizeFits⟩ := within.room coherent member found
    have done := offerTx_of_room (within.acceptable coherent member found height time) countFits sizeFits
    have kept := within.coherent.offerTx (returnOffer currentTime disconnectHeight old.tx)
    rw [done] at kept ⊢
    refine ⟨within.insertEntry member rfl kept, fun item inside => ?_, ?_⟩
    · rw [mapTx_insertEntry]
      refine mem_insert.mpr (.inr ⟨fun same => ?_, inside⟩)
      change item.1 = old.tx.getHash H at same
      exact find_eq_none_iff.mp found item.2 (same ▸ inside)
    · refine exists'_iff.mpr ⟨(returnOffer currentTime disconnectHeight old.tx).entry, ?_⟩
      rw [mapTx_insertEntry]
      exact mem_insert.mpr (.inl rfl)

lemma Within.foldl_returnTx (coherent : Coherent H pool)
    (members : ∀ tx ∈ blockTxs, tx.isCoinBase = false → ∃ old, (tx.getHash H, old) ∈ pool.mapTx ∧ old.tx = tx)
    (height : disconnectHeight ≠ 1) (time : 0 < currentTime) :
    (∀ item, item ∈ current.mapTx →
      item ∈ (blockTxs.foldl (CTxMemPool.returnTx H currentTime disconnectHeight) current).mapTx) ∧
      ∀ tx ∈ blockTxs, tx.isCoinBase = false →
        (blockTxs.foldl (CTxMemPool.returnTx H currentTime disconnectHeight) current).exists'
          (tx.getHash H) = true := by
  induction blockTxs generalizing current with
  | nil => exact ⟨fun _ inside => inside, fun _ inside => absurd inside not_mem_nil⟩
  | cons tx rest ih =>
    have others : ∀ other ∈ rest, other.isCoinBase = false →
        ∃ old, (other.getHash H, old) ∈ pool.mapTx ∧ old.tx = other :=
      fun other inside => members other (mem_cons_of_mem _ inside)
    rw [foldl_cons]
    cases ordinary : tx.isCoinBase with
    | true =>
      have skipped : CTxMemPool.returnTx H currentTime disconnectHeight current tx = current := by
        unfold CTxMemPool.returnTx
        rw [if_pos ordinary]
      rw [skipped]
      obtain ⟨kept, back⟩ := ih within others
      refine ⟨kept, fun other inside notCoinBase => ?_⟩
      rcases mem_cons.mp inside with rfl | later
      · rw [ordinary] at notCoinBase
        cases notCoinBase
      · exact back other later notCoinBase
    | false =>
      obtain ⟨old, member, rfl⟩ := members tx mem_cons_self ordinary
      obtain ⟨next, stays, here⟩ := within.returnTx coherent member height time
      obtain ⟨kept, back⟩ := ih next others
      refine ⟨fun item inside => kept item (stays item inside), fun other inside notCoinBase => ?_⟩
      rcases mem_cons.mp inside with rfl | later
      · obtain ⟨entry, found⟩ := exists'_iff.mp here
        exact exists'_iff.mpr ⟨entry, kept _ found⟩
      · exact back other later notCoinBase

end

def Holds (H : HashFunctions) (pool : CTxMemPool) (blockTxs : List CTransaction) : Prop :=
  ∀ tx ∈ blockTxs, tx.isCoinBase = false → ∃ old, (tx.getHash H, old) ∈ pool.mapTx ∧ old.tx = tx

def roundTrip (H : HashFunctions) (pool : CTxMemPool) (currentTime : Int) (block : CBlock) (height : Int32) :
    CTxMemPool :=
  (pool.connectTip H block).disconnectTip H currentTime block height

/-- Each of the transactions of a connected and disconnected block is a member with the fee it had before,
exactly if none of them had a fee, the clock shows a positive time and the block is not at height one. -/
theorem roundTrip_keeps_fees_iff (pool : SoundPool H) (currentTime : Int) {block : CBlock}
    {blockTxs : List CTransaction}
    (decoded : CBlockValidator.deserializeBlockTransactions block = .ok blockTxs)
    (holds : Holds H pool.toCTxMemPool blockTxs)
    (height : Int32) :
    (∀ tx ∈ blockTxs, tx.isCoinBase = false → ∀ entry, (tx.getHash H, entry) ∈ pool.mapTx →
      ∃ again, (tx.getHash H, again) ∈ (pool.roundTrip H currentTime block height).mapTx ∧ again.tx = entry.tx ∧
      again.fee = entry.fee) ↔
    ∀ tx ∈ blockTxs, tx.isCoinBase = false →
      (∀ entry, (tx.getHash H, entry) ∈ pool.mapTx → entry.fee = 0) ∧ height ≠ 1 ∧ 0 < currentTime := by
  have trip : pool.roundTrip H currentTime block height =
      blockTxs.foldl (returnTx H currentTime height) (pool.removeConfirmedTxs H blockTxs) := by
    unfold roundTrip CTxMemPool.connectTip CTxMemPool.disconnectTip
    rw [decoded]
  rw [trip]
  -- What is back came back without a fee.
  have fresh : ∀ tx ∈ blockTxs, ∀ again,
      (tx.getHash H, again) ∈ (blockTxs.foldl (returnTx H currentTime height)
        (pool.removeConfirmedTxs H blockTxs)).mapTx →
        again.fee = 0 ∧ height ≠ 1 ∧ 0 < currentTime := by
    intro tx inside again back
    rcases mem_foldl_returnTx back with stayed | ⟨⟨other, -, -, same⟩, sound⟩
    · exact absurd (mem_map_of_mem inside) (mem_removeConfirmedTxs.mp stayed).1
    · rw [(Prod.mk.inj same).2]
      exact ⟨rfl, sound⟩
  constructor
  · intro kept tx inside ordinary
    obtain ⟨old, member, -⟩ := holds tx inside ordinary
    refine ⟨fun entry found => ?_, ?_⟩
    · obtain ⟨again, back, -, sameFee⟩ := kept tx inside ordinary entry found
      rw [← sameFee]
      exact (fresh tx inside again back).1
    · obtain ⟨again, back, -, -⟩ := kept tx inside ordinary old member
      exact (fresh tx inside again back).2
  · intro free tx inside ordinary entry found
    obtain ⟨noFee, notOne, positive⟩ := free tx inside ordinary
    have removed : Within H pool.toCTxMemPool (pool.removeConfirmedTxs H blockTxs) :=
      ⟨pool.coherent.removeAll _, maxMempoolSize_removeAll _, maxMempoolCount_removeAll _,
        fun key old member => ⟨old, (mem_removeConfirmedTxs.mp member).2, rfl⟩⟩
    obtain ⟨again, back⟩ := exists'_iff.mp
      ((removed.foldl_returnTx pool.coherent holds notOne positive).2 tx inside ordinary)
    refine ⟨again, back, ?_, ?_⟩
    · rcases mem_foldl_returnTx back with stayed | ⟨⟨other, isIn, notCoinBase, same⟩, -⟩
      · exact absurd (mem_map_of_mem inside) (mem_removeConfirmedTxs.mp stayed).1
      · obtain ⟨sameHash, rfl⟩ := Prod.mk.inj same
        obtain ⟨others, alsoMember, alsoSame⟩ := holds other isIn notCoinBase
        rw [← sameHash] at alsoMember
        rw [← eq_of_mem alsoMember found, alsoSame]
    · rw [(fresh tx inside again back).1, noFee entry found]

open CUTXOSet MempoolChain

def paymentPool : SoundPool lengthHash where
  toCTxMemPool := (CTxMemPool.empty.addTx lengthHash 1000 (some payment) 10000 1000 5 false).2
  coherent := (coherent_emptyWith (by decide) _).attempt 1000 (.addTx (some payment) 10000 1000 5 false)

def paymentBlock : CBlock := blockOf .null [rewardTx, payment]

set_option maxRecDepth 4000 in
lemma paymentBlock_decodes : CBlockValidator.deserializeBlockTransactions paymentBlock =
    .ok [rewardTx, payment] := by decide

lemma paymentPool_holds : Holds lengthHash paymentPool.toCTxMemPool [rewardTx, payment] := by
  intro tx inside ordinary
  rcases mem_cons.mp inside with rfl | later
  · exact absurd ordinary (by decide)
  · rw [mem_singleton.mp later]
    exact ⟨⟨payment, 10000, 1000, 5⟩, find_eq_some_iff.mp (by decide), rfl⟩

theorem payment_roundTrip :
    (∀ tx ∈ [rewardTx, payment], tx.isCoinBase = false → ∀ entry, (tx.getHash lengthHash, entry) ∈ paymentPool.mapTx →
      ∃ again, (tx.getHash lengthHash, again) ∈ (paymentPool.roundTrip lengthHash 2000 paymentBlock 2).mapTx ∧
        again.tx = entry.tx ∧ again.fee = entry.fee) ↔
    ∀ tx ∈ [rewardTx, payment], tx.isCoinBase = false →
      (∀ entry, (tx.getHash lengthHash, entry) ∈ paymentPool.mapTx → entry.fee = 0) ∧
      (2 : Int32) ≠ 1 ∧ (0 : Int) < 2000 :=
  roundTrip_keeps_fees_iff paymentPool 2000 paymentBlock_decodes paymentPool_holds 2

set_option maxRecDepth 4000 in
theorem payment_loses_fee : Holds lengthHash paymentPool.toCTxMemPool [rewardTx, payment] ∧
    (paymentPool.mapTx.find (payment.getHash lengthHash)).map CTxMemPoolEntry.fee = some 10000 ∧
    ((paymentPool.roundTrip lengthHash 2000 paymentBlock 2).mapTx.find (payment.getHash lengthHash)).map
      CTxMemPoolEntry.fee = some 0 ∧
    (paymentPool.roundTrip lengthHash 2000 paymentBlock 1).exists' (payment.getHash lengthHash) = false := by
  refine ⟨paymentPool_holds, ?_, ?_, ?_⟩
  · rfl
  · decide
  · decide

end Dilithion.CTxMemPool
