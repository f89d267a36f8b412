import Dilithion.Node.UtxoPending

/-! Blocks applied over pending additions and removals. The walk reads through the pending tables, so it goes as on a
set to which they were written. -/

namespace Dilithion

open Lib Lib.WriteBatch Lib.Ledger CUTXOSet

namespace CUTXOSet

def cachedLike (base x : CUTXOSet) : CUTXOSet := { base with cache := x.cache, stats := x.stats }

structure Keeps (s x : CUTXOSet) : Prop where
  isOpen : x.isOpen = s.isOpen
  db : x.db = s.db
  additions : x.cacheAdditions = s.cacheAdditions
  deletions : x.cacheDeletions = s.cacheDeletions

/-- A lookup of an outpoint without a pending change answers and loads alike on the flushed set. -/
lemma Keeps.getUTXO {s x : CUTXOSet} (keeps : Keeps s x) (env : Env) {outpoint : COutPoint}
    (unpending : s.Unpending outpoint) :
    Keeps s (x.getUTXO env outpoint).2 ∧ (s.flushed.cachedLike x).getUTXO env outpoint =
        ((x.getUTXO env outpoint).1, s.flushed.cachedLike (x.getUTXO env outpoint).2) := by
  have storedHere : x.stored outpoint = s.stored outpoint := by rw [stored, keeps.db]; rfl
  have storedThere : (s.flushed.cachedLike x).stored outpoint = s.stored outpoint := by
    simp only [stored, cachedLike, flushed, lookup_flushBatch_of_unpending unpending]
  have additions : x.cacheAdditions.lookup outpoint = none := by rw [keeps.additions, unpending.1]
  have deletions : x.cacheDeletions.lookup outpoint = none := by rw [keeps.deletions, unpending.2]
  simp only [CUTXOSet.getUTXO, additions, deletions, storedHere, storedThere]
  cases isOpen : s.isOpen with
  | false =>
    have closed : x.isOpen = false := keeps.isOpen.trans isOpen
    simp [cachedLike, flushed, closed, isOpen, keeps]
  | true =>
    have opened : x.isOpen = true := keeps.isOpen.trans isOpen
    simp only [cachedLike, flushed, opened, isOpen, not_true_eq_false, if_false, AList.lookup_empty,
      Option.isSome_none, Bool.false_eq_true]
    cases x.cache.lookup outpoint with
    | some entry => exact ⟨keeps, rfl⟩
    | none =>
      cases s.stored outpoint with
      | none => exact ⟨keeps, rfl⟩
      | some entry => exact ⟨⟨keeps.isOpen, keeps.db, keeps.additions, keeps.deletions⟩, rfl⟩

end CUTXOSet

def Staged.onto (base : CUTXOSet) (staged : Staged) : Staged := { staged with set := base.cachedLike staged.set }

def Applying.onto (base : CUTXOSet) (applying : Applying) : Applying :=
  { applying with staged := applying.staged.onto base }

structure Beside (s : CUTXOSet) (staged : Staged) : Prop where
  keeps : s.Keeps staged.set
  batch : ∀ op ∈ staged.batch, ∃ outpoint, s.Unpending outpoint ∧ op.key = serializeOutPoint outpoint

section

variable {env : Env} {s : CUTXOSet} {staged : Staged}

lemma Beside.stage {next : Staged} {op : Op Bytes Bytes} {outpoint : COutPoint} (beside : Beside s staged)
    (keeps : s.Keeps next.set) (unpending : s.Unpending outpoint) (appended : next.batch = staged.batch ++ [op])
    (key : op.key = serializeOutPoint outpoint) : Beside s next where
  keeps := keeps
  batch := by
    intro other member
    rw [appended] at member
    rcases List.mem_append.mp member with before | last
    · exact beside.batch other before
    · exact ⟨outpoint, unpending, List.mem_singleton.mp last ▸ key⟩

lemma Beside.put (beside : Beside s staged) (env : Env) {outpoint : COutPoint} (unpending : s.Unpending outpoint)
    (entry : CUTXOEntry) : Beside s (staged.put env outpoint entry) :=
  beside.stage { beside.keeps with } unpending rfl rfl

lemma Beside.remove (beside : Beside s staged) {outpoint : COutPoint} (unpending : s.Unpending outpoint)
    (nValue : UInt64) : Beside s (staged.remove outpoint nValue) :=
  beside.stage { beside.keeps with } unpending rfl rfl

/-- The same step on `s` and on its flushed set: it ends alike, with the same cache, counters and batch. -/
def Alongside (s : CUTXOSet) : Except CUTXOSet Applying → Except CUTXOSet Applying → Prop
  | .error set, there => s.Keeps set ∧ there = .error (s.flushed.cachedLike set)
  | .ok applying, there => Beside s applying.staged ∧ there = .ok (applying.onto s.flushed)

lemma Alongside.bind {here there : Except CUTXOSet Applying} {next : Applying → Except CUTXOSet Applying}
    (alongside : Alongside s here there)
    (step : ∀ applying, Beside s applying.staged → Alongside s (next applying) (next (applying.onto s.flushed))) :
    Alongside s (here >>= next) (there >>= next) := by
  cases here with
  | error set =>
    obtain ⟨keeps, rfl⟩ := alongside
    exact ⟨keeps, rfl⟩
  | ok applying =>
    obtain ⟨beside, rfl⟩ := alongside
    exact step applying beside

variable {applying : Applying}

lemma foldlM_alongside {α : Type} {step : Applying → α → Except CUTXOSet Applying} {items : List α}
    (each : ∀ item ∈ items, ∀ applying, Beside s applying.staged →
      Alongside s (step applying item) (step (applying.onto s.flushed) item))
    (beside : Beside s applying.staged) :
    Alongside s (items.foldlM step applying) (items.foldlM step (applying.onto s.flushed)) := by
  induction items generalizing applying with
  | nil => exact ⟨beside, rfl⟩
  | cons item rest ih =>
    refine (each item List.mem_cons_self applying beside).bind fun next besideNext => ?_
    exact ih (fun other member => each other (List.mem_cons_of_mem _ member)) besideNext

lemma spendInput_alongside (beside : Beside s applying.staged) {txin : CTxIn} (unpending : s.Unpending txin.prevout) :
    Alongside s (spendInput env applying txin) (spendInput env (applying.onto s.flushed) txin) := by
  obtain ⟨keeps, same⟩ := beside.keeps.getUTXO env unpending
  have there : (applying.onto s.flushed).staged.set.getUTXO env txin.prevout = _ := same
  rw [spendInput, spendInput, there]
  cases answer : applying.staged.set.getUTXO env txin.prevout with
  | mk result set =>
    rw [answer] at keeps
    cases result with
    | none => exact ⟨keeps, rfl⟩
    | some entry =>
      have loaded : Beside s { applying.staged with set } := ⟨keeps, beside.batch⟩
      exact ⟨loaded.remove unpending entry.out.nValue, rfl⟩

lemma addOutputs_onto (env : Env) (base : CUTXOSet) (height : UInt32) (isCoinbase : Bool) (staged : Staged)
    (outputs : List (COutPoint × CTxOut)) :
    addOutputs env height isCoinbase (staged.onto base) outputs =
      (addOutputs env height isCoinbase staged outputs).onto base := by
  induction outputs generalizing staged with
  | nil => rfl
  | cons output rest ih => exact ih (staged.put env output.1 ⟨output.2, height, isCoinbase⟩)

variable {outputs : List (COutPoint × CTxOut)}

lemma addOutputs_beside (beside : Beside s staged) (height : UInt32) (isCoinbase : Bool)
    (unpending : ∀ output ∈ outputs, s.Unpending output.1) :
    Beside s (addOutputs env height isCoinbase staged outputs) := by
  induction outputs generalizing staged with
  | nil => exact beside
  | cons output rest ih =>
    refine ih (beside.put env (unpending output List.mem_cons_self) ⟨output.2, height, isCoinbase⟩) ?_
    exact fun other member => unpending other (List.mem_cons_of_mem _ member)

lemma applyTransaction_alongside (beside : Beside s applying.staged) {height : UInt32}
    {isCoinbase : Bool} {tx : CTransaction}
    (unpending : ∀ event ∈ txEvents env.hashes height isCoinbase tx, s.Unpending event.key) :
    Alongside s (applyTransaction env height isCoinbase applying tx)
      (applyTransaction env height isCoinbase (applying.onto s.flushed) tx) := by
  have outputs : ∀ output ∈ createdOutputs (tx.getHash env.hashes) tx.vout, s.Unpending output.1 := by
    intro output member
    exact unpending (.create output.1 ⟨output.2, height, isCoinbase⟩)
      (List.mem_append_right _ (List.mem_map_of_mem member))
  refine Alongside.bind ?_ fun next besideNext => ?_
  · cases isCoinbase with
    | true => exact ⟨beside, rfl⟩
    | false =>
      apply foldlM_alongside ?_ beside
      intro txin member now besideNow
      apply spendInput_alongside besideNow
      refine unpending (.consume txin.prevout) (List.mem_append_left _ ?_)
      exact List.mem_map_of_mem member
  · refine ⟨addOutputs_beside besideNext height isCoinbase outputs, ?_⟩
    rw [Applying.onto, addOutputs_onto]
    rfl

variable {transactions : List CTransaction}

lemma applyTransactions_alongside (beside : Beside s applying.staged) {height : UInt32}
    (unpending : ∀ event ∈ transactionsEvents env.hashes height transactions, s.Unpending event.key) :
    Alongside s (applyTransactions env height applying transactions)
      (applyTransactions env height (applying.onto s.flushed) transactions) := by
  cases transactions with
  | nil => exact ⟨beside, rfl⟩
  | cons coinbase rest =>
    refine Alongside.bind ?_ fun next besideNext => ?_
    · exact applyTransaction_alongside beside fun event member => unpending event (List.mem_append_left _ member)
    · refine foldlM_alongside ?_ besideNext
      intro tx member now besideNow
      apply applyTransaction_alongside besideNow
      intro event inside
      exact unpending event (List.mem_append_right _ (List.mem_flatMap.mpr ⟨tx, member, inside⟩))

/-- The outcomes of a call on `s` and on its flushed set: alike, with the same cache; a call that
succeeded has written the same database, one that failed has written nothing. -/
structure Echoes (s : CUTXOSet) (here there : Bool × CUTXOSet) : Prop where
  answer : here.1 = there.1
  isOpen : here.2.isOpen = s.isOpen
  cache : here.2.cache = there.2.cache
  done : here.1 = true → here.2.cacheAdditions = ∅ ∧ here.2.cacheDeletions = ∅ ∧
    ∀ outpoint, here.2.db.lookup (serializeOutPoint outpoint) = there.2.db.lookup (serializeOutPoint outpoint)
  failed : here.1 = false → s.Keeps here.2 ∧ there.2 = s.flushed.cachedLike here.2

lemma CUTXOSet.Keeps.echoes {set : CUTXOSet} (keeps : s.Keeps set) :
    Echoes s (false, set) (false, s.flushed.cachedLike set) where
  answer := rfl
  isOpen := keeps.isOpen
  cache := rfl
  done := by simp
  failed := fun _ => ⟨keeps, rfl⟩

/-- Pending changes written after the batch or before it: the keys are different ones. -/
lemma Beside.lookup_committed (beside : Beside s staged) (outpoint : COutPoint) :
    staged.committed.db.lookup (serializeOutPoint outpoint) =
      (staged.onto s.flushed).committed.db.lookup (serializeOutPoint outpoint) := by
  have here : staged.committed.db.lookup (serializeOutPoint outpoint) =
      (write s.flushBatch (write staged.batch s.db)).lookup (serializeOutPoint outpoint) := by
    simp [Staged.committed, Staged.written, lookup_flushBatch, beside.keeps.additions,
      beside.keeps.deletions, beside.keeps.db]
  have there : (staged.onto s.flushed).committed.db.lookup (serializeOutPoint outpoint) =
      (write staged.batch (write s.flushBatch s.db)).lookup (serializeOutPoint outpoint) :=
    Staged.lookup_committed rfl rfl (statsKey_ne_serializeOutPoint outpoint).symm
  rw [here, there]
  by_cases unpending : s.Unpending outpoint
  · rw [lookup_flushBatch_of_unpending unpending]
    exact lookup_write_congr (lookup_flushBatch_of_unpending unpending s.db).symm
  · have untouched : ∀ op ∈ staged.batch, op.key ≠ serializeOutPoint outpoint := by
      intro op member same
      obtain ⟨named, free, key⟩ := beside.batch op member
      rw [key, serializeOutPoint_inj] at same
      exact unpending (same ▸ free)
    rw [lookup_write_of_untouched untouched, lookup_flushBatch, lookup_flushBatch, lookup_write_of_untouched untouched]

lemma Beside.commit (beside : Beside s staged) (isOpen : s.isOpen = true) :
    Echoes s (staged.commit {}) ((staged.onto s.flushed).commit {}) := by
  rw [Staged.commit_eq (beside.keeps.isOpen.trans isOpen), Staged.commit_eq (show s.isOpen = true from isOpen)]
  exact {
    answer := rfl
    isOpen := beside.keeps.isOpen
    cache := rfl
    done := fun _ => ⟨rfl, rfl, beside.lookup_committed⟩
    failed := by simp }

variable {block : CBlock} {height : UInt32} {blockHash : Uint256}

lemma applyBlock_echoes (isOpen : s.isOpen = true)
    (unpending : ∀ event ∈ blockEvents env.hashes height block, s.Unpending event.key)
    (slot : s.Unpending (undoSlot blockHash)) :
    Echoes s (s.applyBlock env {} block height blockHash) (s.flushed.applyBlock env {} block height blockHash) := by
  have unchanged : s.Keeps s := ⟨rfl, rfl, rfl, rfl⟩
  have start : Beside s (Applying.mk ⟨s, []⟩ []).staged := ⟨unchanged, by simp⟩
  have alongside := applyTransactions_alongside start unpending
  rw [applyBlock, applyBlock, if_neg (by simp [isOpen]),
    if_neg (show ¬ ¬ s.flushed.isOpen = true by simp [flushed, isOpen])]
  by_cases empty : (blockTransactions block).isEmpty = true
  · rw [if_pos empty, if_pos empty]
    exact unchanged.echoes
  · rw [if_neg empty, if_neg empty]
    cases walk : applyTransactions env height ⟨⟨s, []⟩, []⟩ (blockTransactions block) with
    | error set =>
      rw [walk] at alongside
      obtain ⟨keeps, there⟩ := alongside
      have walkThere : applyTransactions env height ⟨⟨s.flushed, []⟩, []⟩ (blockTransactions block) = _ := there
      rw [walkThere]
      exact keeps.echoes
    | ok applying =>
      rw [walk] at alongside
      obtain ⟨beside, there⟩ := alongside
      have walkThere : applyTransactions env height ⟨⟨s.flushed, []⟩, []⟩ (blockTransactions block) = _ := there
      rw [walkThere]
      have finished : Beside s (applying.finish env height blockHash) :=
        beside.stage { beside.keeps with } slot rfl (serializeOutPoint_undoSlot _).symm
      exact finished.commit isOpen

lemma removeOutputs_onto (base : CUTXOSet) (staged : Staged) (outputs : List (COutPoint × CTxOut)) :
    removeOutputs (staged.onto base) outputs = (removeOutputs staged outputs).onto base := by
  induction outputs generalizing staged with
  | nil => rfl
  | cons output rest ih => exact ih (staged.remove output.1 output.2.nValue)

lemma restoreAll_onto (env : Env) (base : CUTXOSet) (staged : Staged) (records : List SpentRecord) :
    restoreAll env (staged.onto base) records = (restoreAll env staged records).onto base := by
  induction records generalizing staged with
  | nil => rfl
  | cons record rest ih => exact ih (staged.put env record.1 record.2)

lemma Beside.removeOutputs (beside : Beside s staged)
    (unpending : ∀ output ∈ outputs, s.Unpending output.1) : Beside s (removeOutputs staged outputs) := by
  induction outputs generalizing staged with
  | nil => exact beside
  | cons output rest ih =>
    refine ih (beside.remove (unpending output List.mem_cons_self) output.2.nValue) ?_
    exact fun other member => unpending other (List.mem_cons_of_mem _ member)

lemma Beside.restoreAll (beside : Beside s staged) {records : List SpentRecord}
    (unpending : ∀ record ∈ records, s.Unpending record.1) : Beside s (restoreAll env staged records) := by
  induction records generalizing staged with
  | nil => exact beside
  | cons record rest ih =>
    refine ih (beside.put env (unpending record List.mem_cons_self) record.2) ?_
    exact fun other member => unpending other (List.mem_cons_of_mem _ member)

lemma undoStaged_onto (env : Env) (s : CUTXOSet) (block : CBlock) (records : List SpentRecord) :
    undoStaged env s.flushed block records = (undoStaged env s block records).onto s.flushed := by
  have start : (Staged.mk s.flushed []) = (Staged.mk s []).onto s.flushed := rfl
  rw [undoStaged, undoStaged, start, removeOutputs_onto, restoreAll_onto]

/-- The undo keys are outpoint keys without a pending change, so the flush does not move a record. -/
lemma lookup_undoKey_flushed (slots : ∀ hash, s.Unpending (undoSlot hash)) (hash : Uint256) :
    s.flushed.db.lookup (undoKey hash) = s.db.lookup (undoKey hash) := by
  rw [← serializeOutPoint_undoSlot]
  exact lookup_flushBatch_of_unpending (slots hash) s.db

lemma findUndo_flushed (slots : ∀ hash, s.Unpending (undoSlot hash)) :
    s.flushed.findUndo env block blockHash = s.findUndo env block blockHash := by
  simp only [findUndo, lookup_undoKey_flushed slots]

lemma Beside.lowered (beside : Beside s staged) : Beside s staged.lowered :=
  ⟨{ beside.keeps with }, beside.batch⟩

lemma Beside.finishUndo (beside : Beside s staged) {storedUnder : Uint256}
    (slot : s.Unpending (undoSlot storedUnder)) : Beside s (finishUndo staged storedUnder) :=
  beside.stage { beside.keeps with } slot rfl (serializeOutPoint_undoSlot _).symm

lemma undoWithoutRecord_echoes (isOpen : s.isOpen = true)
    (outputs : ∀ output ∈ blockOutputsReversed env.hashes transactions, s.Unpending output.1) :
    Echoes s (s.undoWithoutRecord env {} transactions) (s.flushed.undoWithoutRecord env {} transactions) := by
  have unchanged : s.Keeps s := ⟨rfl, rfl, rfl, rfl⟩
  have refused : Echoes s (false, s) (false, s.flushed) := unchanged.echoes
  have start : Beside s ⟨s, []⟩ := ⟨unchanged, by simp⟩
  rw [undoWithoutRecord, undoWithoutRecord]
  by_cases empty : transactions.isEmpty = true
  · rw [if_pos empty, if_pos empty]
    exact refused
  · rw [if_neg empty, if_neg empty]
    by_cases spends : transactions.tail.any (fun tx => ¬ tx.vin.isEmpty) = true
    · rw [if_pos spends, if_pos spends]
      exact refused
    · rw [if_neg spends, if_neg spends]
      have there : (Staged.mk s.flushed []) = (Staged.mk s []).onto s.flushed := rfl
      rw [there, removeOutputs_onto]
      exact (start.removeOutputs outputs).lowered.commit isOpen

lemma undoWithRecord_echoes (isOpen : s.isOpen = true) {storedUnder : Uint256} {undoValue : Bytes}
    (slot : s.Unpending (undoSlot storedUnder))
    (outputs : ∀ output ∈ blockOutputsReversed env.hashes (blockTransactions block), s.Unpending output.1)
    (records : ∀ record ∈ (decodeUndo undoValue).1, s.Unpending record.1) :
    Echoes s (s.undoWithRecord env {} (blockTransactions block) storedUnder undoValue)
      (s.flushed.undoWithRecord env {} (blockTransactions block) storedUnder undoValue) := by
  have unchanged : s.Keeps s := ⟨rfl, rfl, rfl, rfl⟩
  have refused : Echoes s (false, s) (false, s.flushed) := unchanged.echoes
  have start : Beside s ⟨s, []⟩ := ⟨unchanged, by simp⟩
  by_cases valid : verifyUndoChecksum env.hashes undoValue = .valid
  · by_cases empty : blockTransactions block = []
    · simpa [undoWithRecord, empty] using refused
    · have staged : Beside s (undoStaged env s block (decodeUndo undoValue).1) :=
        (start.removeOutputs outputs).restoreAll records
      rw [undoWithRecord_eq valid empty, undoWithRecord_eq valid empty, undoStaged_onto]
      generalize undoStaged env s block (decodeUndo undoValue).1 = reached at staged ⊢
      by_cases complete : (decodeUndo undoValue).2 = true
      · rw [if_pos complete, if_pos complete]
        exact (staged.finishUndo slot).commit isOpen
      · rw [if_neg complete, if_neg complete]
        exact staged.keeps.echoes
  · simpa [undoWithRecord, valid] using refused

lemma undoBlock_echoes (isOpen : s.isOpen = true) (slots : ∀ hash, s.Unpending (undoSlot hash))
    (outputs : ∀ output ∈ blockOutputsReversed env.hashes (blockTransactions block), s.Unpending output.1)
    (records : ∀ storedUnder undoValue, s.findUndo env block blockHash = some (storedUnder, undoValue) →
      ∀ record ∈ (decodeUndo undoValue).1, s.Unpending record.1) :
    Echoes s (s.undoBlock env {} block blockHash) (s.flushed.undoBlock env {} block blockHash) := by
  rw [undoBlock, undoBlock, if_neg (by simp [isOpen]),
    if_neg (show ¬ ¬ s.flushed.isOpen = true by simp [flushed, isOpen]), findUndo_flushed slots]
  cases found : s.findUndo env block blockHash with
  | none => exact undoWithoutRecord_echoes isOpen outputs
  | some record =>
    obtain ⟨storedUnder, undoValue⟩ := record
    exact undoWithRecord_echoes isOpen (slots storedUnder) outputs (records storedUnder undoValue found)

end

end Dilithion
