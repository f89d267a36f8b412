import Dilithion.Lib.Counter
import Dilithion.Node.UtxoApply

/-! Undoing a block. The undo record of an applied block is found, verifies and decodes to the
entries the block spent, so `UndoBlock` stages the removal of every output of the block and then the
recorded entries. Outputs that the block created and spent itself are restored with the rest. -/

namespace Dilithion

open Lib Lib.WriteBatch Lib.Ledger Lib.Counter Change

def Change.unitDelta : Change → Delta
  | .remove _ _ => .down 1
  | .put _ _ => .up 1

def Change.valueDelta : Change → Delta
  | .remove _ nValue => .down nValue
  | .put _ entry => .up entry.out.nValue

lemma Change.count_nUTXOs (changes : List Change) (stats : CUTXOStats) :
    (changes.foldl count stats).nUTXOs = tally stats.nUTXOs (changes.map unitDelta) := by
  induction changes generalizing stats with
  | nil => rfl
  | cons change rest ih =>
    rw [List.foldl_cons, ih, List.map_cons, tally_cons]
    cases change with
    | put outpoint entry => rfl
    | remove outpoint nValue =>
      have guard : 0 < stats.nUTXOs ↔ 1 ≤ stats.nUTXOs := by
        exact Iff.rfl
      simp only [count, CUTXOStats.subtract, unitDelta, Delta.apply, guard]

lemma Change.count_nTotalAmount (changes : List Change) (stats : CUTXOStats) :
    (changes.foldl count stats).nTotalAmount = tally stats.nTotalAmount (changes.map valueDelta) := by
  induction changes generalizing stats with
  | nil => rfl
  | cons change rest ih =>
    rw [List.foldl_cons, ih]
    cases change <;> rfl

def Change.added : Change → Option UInt64
  | .remove _ _ => none
  | .put _ entry => some entry.out.nValue

def valueSum (values : List UInt64) : Nat := (values.map UInt64.toNat).sum

lemma Change.sums (changes : List Change) : rises (changes.map unitDelta) = (changes.filterMap added).length ∧
    falls (changes.map unitDelta) = (changes.filterMap removed).length ∧
    rises (changes.map valueDelta) = valueSum (changes.filterMap added) ∧
    falls (changes.map valueDelta) = valueSum (changes.filterMap removed) := by
  induction changes with
  | nil => simp [rises, falls, valueSum]
  | cons change rest ih =>
    obtain ⟨units, unitsTaken, values, valuesTaken⟩ := ih
    simp only [valueSum] at values valuesTaken ⊢
    cases change with
    | remove outpoint nValue =>
      simp [unitDelta, valueDelta, rises, falls, added, removed, List.filterMap_cons,
        units, unitsTaken, values, valuesTaken, Nat.add_comm]
    | put outpoint entry =>
      simp [unitDelta, valueDelta, rises, falls, added, removed, List.filterMap_cons,
        units, unitsTaken, values, valuesTaken, Nat.add_comm]

lemma take_undoData (H : HashFunctions) (spent : List SpentRecord) :
    (undoData H spent).take ((undoData H spent).length - 32) = undoPayload spent := by
  simp [undoData]

lemma verifyUndoChecksum_undoData (H : HashFunctions) (spent : List SpentRecord) :
    verifyUndoChecksum H (undoData H spent) = .valid := by
  have length : 36 ≤ (undoData H spent).length := by
    simp only [undoData, undoPayload, List.length_append, serializeUint32_length, Uint256.data_length]
    omega
  have back : (undoData H spent).drop ((undoData H spent).length - 32) = (H.sha3_256 (undoPayload spent)).data := by
    simp [undoData]
  rw [verifyUndoChecksum, if_neg (by omega), take_undoData, back]
  simp

/-- The entries decoded from an undo record, and whether all `count` of them could be decoded. -/
def readRecords : Nat → Bytes → List SpentRecord × Bool
  | 0, _ => ([], true)
  | count + 1, data =>
    match deserializeUndoEntry.run data with
    | .error _ => ([], false)
    | .ok (record, rest) => (record :: (readRecords count rest).1, (readRecords count rest).2)

def restoreAll (env : Env) (staged : Staged) (records : List SpentRecord) : Staged :=
  records.foldl (fun now record => now.put env record.1 record.2) staged

/-- Restoring stages what the record decodes to, and fails where decoding fails. -/
lemma restoreInputs_eq (env : Env) (count : Nat) (data : Bytes) (staged : Staged) :
    restoreInputs env count data staged =
      if (readRecords count data).2 then .ok (restoreAll env staged (readRecords count data).1)
      else .error (restoreAll env staged (readRecords count data).1).set := by
  induction count generalizing data staged with
  | zero => rfl
  | succ count ih =>
    cases read : deserializeUndoEntry.run data with
    | error text => simp [restoreInputs, readRecords, read, restoreAll]
    | ok result => simp [restoreInputs, readRecords, read, restoreAll, ih]

lemma readRecords_serialized {spent : List SpentRecord} (short : ∀ record ∈ spent, record.2.Short) :
    readRecords spent.length (spent.flatMap serializeUndoEntry) = (spent, true) := by
  induction spent with
  | nil => rfl
  | cons record others ih =>
    have here := short record List.mem_cons_self
    have later := ih fun other member => short other (List.mem_cons_of_mem _ member)
    simp only [List.length_cons, readRecords, List.flatMap_cons]
    rw [deserialize_serializeUndoEntry here]
    simp [later]

def removals (outputs : List (COutPoint × CTxOut)) : List Change :=
  outputs.map fun output => .remove output.1 output.2.nValue

def restorations (records : List SpentRecord) : List Change :=
  records.map fun record => .put record.1 record.2

variable {staged : Staged} {base : CUTXOSet} {changes : List Change}

lemma Stages.removeOutputs (stages : Stages base changes staged) (outputs : List (COutPoint × CTxOut)) :
    Stages base (changes ++ removals outputs) (removeOutputs staged outputs) := by
  induction outputs generalizing changes staged with
  | nil => simpa [removals, Dilithion.removeOutputs] using stages
  | cons output rest ih =>
    have step := ih (stages.remove output.1 output.2.nValue)
    simpa [removals, Dilithion.removeOutputs] using step

lemma Stages.restoreAll {env : Env} (stages : Stages base changes staged) (records : List SpentRecord)
    (room : changes.length + records.length ≤ env.maxCacheSize) :
    Stages base (changes ++ restorations records) (restoreAll env staged records) := by
  induction records generalizing changes staged with
  | nil => simpa [restorations, Dilithion.restoreAll] using stages
  | cons record rest ih =>
    simp only [List.length_cons] at room
    have next : Stages base (changes ++ [.put record.1 record.2]) (staged.put env record.1 record.2) :=
      stages.put (by omega) record.1 record.2
    have step := ih next (by simp only [List.length_append, List.length_cons, List.length_nil]; omega)
    simpa [restorations, Dilithion.restoreAll] using step

lemma map_event_undo (outputs : List (COutPoint × CTxOut)) (records : List SpentRecord) :
    (removals outputs ++ restorations records).map event = undoEvents (outputs.map Prod.fst) records := by
  simp [removals, restorations, undoEvents, Function.comp_def]

structure Undone (s : CUTXOSet) (outputs : List (COutPoint × CTxOut)) (records : List SpentRecord)
    (blockHash : Uint256) (s' : CUTXOSet) : Prop where
  isOpen : s'.isOpen = true
  additions : s'.cacheAdditions = ∅
  deletions : s'.cacheDeletions = ∅
  others : ∀ other, other ≠ blockHash → effectAt (undoSlot other) (undoEvents (outputs.map Prod.fst) records) = none →
    s'.db.lookup (undoKey other) = s.db.lookup (undoKey other)
  stats : s'.stats = lowerHeight ((removals outputs ++ restorations records).foldl count s.stats)
  stored : ∀ outpoint, s'.stored outpoint =
    if undoSlot blockHash = outpoint then none else run s.stored (undoEvents (outputs.map Prod.fst) records) outpoint
  origin : ∀ outpoint entry, s'.cache.lookup outpoint = some entry →
    effectAt outpoint (undoEvents (outputs.map Prod.fst) records) = some (some entry) ∨
      effectAt outpoint (undoEvents (outputs.map Prod.fst) records) = none ∧ s.cache.lookup outpoint = some entry

variable {records : List SpentRecord}

lemma shortEvents_undo (short : ∀ record ∈ records, record.2.Short)
    (outputs : List COutPoint) : ShortEvents (undoEvents outputs records) := by
  intro outpoint entry member
  simp only [undoEvents, List.mem_append, List.mem_map, reduceCtorEq, and_false, exists_false, false_or] at member
  obtain ⟨record, inside, same⟩ := member
  cases same
  exact short record inside

def finishUndo (staged : Staged) (storedUnder : Uint256) : Staged :=
  Staged.lowered { staged with batch := staged.batch ++ [.delete (undoKey storedUnder)] }

lemma Stages.undone {s : CUTXOSet} {outputs : List (COutPoint × CTxOut)}
    (stages : Stages s (removals outputs ++ restorations records) staged)
    (short : ∀ record ∈ records, record.2.Short) (blockHash : Uint256) :
    Undone s outputs records blockHash (finishUndo staged blockHash).committed := by
  have additions : (finishUndo staged blockHash).set.cacheAdditions = ∅ := stages.additions
  have deletions : (finishUndo staged blockHash).set.cacheDeletions = ∅ := stages.deletions
  have shortChanges : ShortEvents ((removals outputs ++ restorations records).map event) :=
    map_event_undo outputs records ▸ shortEvents_undo short _
  have batch : (finishUndo staged blockHash).written.db =
      write ((removals outputs ++ restorations records).map op ++ [.delete (undoKey blockHash)]) s.db := by
    simp only [Staged.written, finishUndo, Staged.lowered, stages.batch, stages.db]
  exact {
    isOpen := stages.isOpen
    additions := rfl
    deletions := rfl
    others := by
      intro other different apart
      rw [Staged.lookup_committed additions deletions (statsKey_ne_undoKey other).symm, batch]
      exact lookup_write_other_undo s.db _ rfl different (map_event_undo outputs records ▸ apart)
    stats := by
      show lowerHeight staged.set.stats = _
      rw [stages.stats]
    stored := by
      intro outpoint
      rw [Staged.stored_committed additions deletions, CUTXOSet.stored_eq, batch,
        storedIn_write_undo shortChanges s.db (.delete (undoKey blockHash)) rfl, map_event_undo]
      rfl
    origin := by
      intro outpoint entry hit
      rw [← map_event_undo]
      exact stages.origin outpoint entry hit }

section

variable {env : Env} {s s' : CUTXOSet} {block : CBlock} {height : UInt32} {blockHash : Uint256}
  {changes : List Change} {spent : List SpentRecord}

/-- The entries an undo record holds, and whether it holds as many as it counts. -/
def decodeUndo (undoValue : Bytes) : List SpentRecord × Bool :=
  let payload := undoValue.take (undoValue.length - 32)
  readRecords (LittleEndian.value (payload.take 4)) (payload.drop 4)

def undoStaged (env : Env) (s : CUTXOSet) (block : CBlock) (records : List SpentRecord) : Staged :=
  restoreAll env (removeOutputs ⟨s, []⟩ (blockOutputsReversed env.hashes (blockTransactions block))) records

lemma CUTXOSet.Coherent.undoStages (coherent : s.Coherent) (records : List SpentRecord)
    (room : (blockOutputsReversed env.hashes (blockTransactions block)).length + records.length ≤ env.maxCacheSize) :
    Stages s (removals (blockOutputsReversed env.hashes (blockTransactions block)) ++ restorations records)
      (undoStaged env s block records) := by
  have removed := coherent.stages.removeOutputs (blockOutputsReversed env.hashes (blockTransactions block))
  exact removed.restoreAll records (by simpa [removals] using room)

lemma undoWithRecord_eq {writes : CUTXOSet.Writes} {storedUnder : Uint256} {undoValue : Bytes}
    (valid : verifyUndoChecksum env.hashes undoValue = .valid) (nonempty : blockTransactions block ≠ []) :
    s.undoWithRecord env writes (blockTransactions block) storedUnder undoValue =
      if (decodeUndo undoValue).2 then
        (finishUndo (undoStaged env s block (decodeUndo undoValue).1) storedUnder).commit writes
      else (false, (undoStaged env s block (decodeUndo undoValue).1).set) := by
  rw [CUTXOSet.undoWithRecord, if_neg (by simp [valid]), if_neg (by simpa using nonempty)]
  simp only [restoreInputs_eq]
  by_cases complete : (decodeUndo undoValue).2 = true
  · rw [if_pos complete]
    simp only [decodeUndo] at complete
    rw [if_pos complete]
    rfl
  · rw [if_neg complete]
    simp only [decodeUndo] at complete
    rw [if_neg complete]
    rfl

lemma decodeUndo_undoData (H : HashFunctions) (short : ∀ record ∈ spent, record.2.Short)
    (few : spent.length < 2 ^ 32) : decodeUndo (undoData H spent) = (spent, true) := by
  have count : LittleEndian.value ((undoPayload spent).take 4) = spent.length := by
    rw [undoPayload, List.take_left' (by simp), value_serializeUint32, UInt32.toNat_ofNat_of_lt' few]
  have body : (undoPayload spent).drop 4 = spent.flatMap serializeUndoEntry := by
    rw [undoPayload, List.drop_left' (by simp)]
  simp only [decodeUndo, take_undoData, count, body, readRecords_serialized short]

lemma Applied.short (applied : Applied env s block height blockHash changes spent s') :
    ∀ record ∈ spent, record.2.Short := by
  have stored : ∀ outpoint entry, s.stored outpoint = some entry → entry.Short := by
    intro outpoint entry found
    obtain ⟨data, -, read⟩ := Option.bind_eq_some_iff.mp found
    exact short_of_deserializeUTXOEntry read
  exact spentRecords_forall stored stored (shortEvents_blockEvents env.hashes height block) applied.records

end

/-! When undoing a block inverts applying it. An output that the block both created and spent is
recorded as spent and restored with the rest, so the set that comes back has an output it never had;
the counters come back only if no decrement was skipped on the way. -/

open Event List Function

variable (H : HashFunctions) (transactions : List CTransaction)

def blockOutputs : List (COutPoint × CTxOut) :=
  transactions.flatMap fun tx => createdOutputs (tx.getHash H) tx.vout

lemma blockOutputsReversed_perm : (blockOutputsReversed H transactions).Perm (blockOutputs H transactions) :=
  (reverse_perm transactions).flatMap_right _

lemma created_txEvents (height : UInt32) (isCoinbase : Bool) (tx : CTransaction) :
    (txEvents H height isCoinbase tx).filterMap created =
      (createdOutputs (tx.getHash H) tx.vout).map (fun output => (output.1, ⟨output.2, height, isCoinbase⟩)) := by
  have inputs : (tx.vin.map fun txin => (consume txin.prevout : UTXOEvent)).filterMap
      created = [] := by
    simp [filterMap_map, comp_def, created]
  cases isCoinbase <;>
    simp [txEvents, filterMap_append, inputs, filterMap_map, comp_def, created]

lemma created_transactionsEvents (height : UInt32) (transactions : List CTransaction) :
    ((transactionsEvents H height transactions).filterMap created).map (fun item => (item.1, item.2.out)) =
      blockOutputs H transactions := by
  have rest : ∀ later : List CTransaction,
      ((later.flatMap (txEvents H height false)).filterMap created).map (fun item => (item.1, item.2.out)) =
        blockOutputs H later := by
    intro later
    induction later with
    | nil => rfl
    | cons tx others ih =>
      simp only [flatMap_cons, filterMap_append, map_append, ih, created_txEvents]
      simp [blockOutputs, comp_def]
  cases transactions with
  | nil => rfl
  | cons coinbase others =>
    simp only [transactionsEvents, filterMap_append, map_append, rest, created_txEvents]
    simp [blockOutputs, comp_def]

lemma mem_outputs_iff (height : UInt32) (block : CBlock) (outpoint : COutPoint) :
    outpoint ∈ (blockOutputsReversed H (blockTransactions block)).map Prod.fst ↔
      ∃ entry, .create outpoint entry ∈ blockEvents H height block := by
  rw [((blockOutputsReversed_perm H (blockTransactions block)).map Prod.fst).mem_iff,
    ← created_transactionsEvents H height, map_map]
  simp only [comp_def, mem_map, Prod.exists, mem_filterMap_created, blockEvents]
  constructor
  · rintro ⟨found, entry, member, rfl⟩
    exact ⟨entry, member⟩
  · rintro ⟨entry, member⟩
    exact ⟨outpoint, entry, member, rfl⟩

lemma added_eq (changes : List Change) : changes.filterMap added =
    ((changes.map event).filterMap created).map (fun item => item.2.out.nValue) := by
  induction changes with
  | nil => rfl
  | cons change rest ih => cases change <;> simp [filterMap_cons, added, created, ih]

section

variable {env : Env} {s s' s'' : CUTXOSet} {block : CBlock} {height : UInt32} {blockHash : Uint256}
  {changes : List Change} {spent : List SpentRecord}

lemma Applied.events_length (applied : Applied env s block height blockHash changes spent s') :
    (blockEvents env.hashes height block).length =
      (blockOutputsReversed env.hashes (blockTransactions block)).length + spent.length := by
  have consumed := congrArg length (spentRecords_keys applied.records)
  have created := congrArg length (created_transactionsEvents env.hashes height (blockTransactions block))
  rw [length_map] at consumed created
  rw [length_eq_consumed_add_created, ← consumed, (blockOutputsReversed_perm _ _).length_eq, ← created]
  exact Nat.add_comm _ _

lemma undoBlock_of_record (coherent : s'.Coherent) (nonempty : blockTransactions block ≠ [])
    (record : s'.db.lookup (undoKey blockHash) = some (undoData env.hashes spent))
    (short : ∀ item ∈ spent, item.2.Short)
    (room : (blockOutputsReversed env.hashes (blockTransactions block)).length + spent.length ≤ env.maxCacheSize)
    (few : spent.length < 2 ^ 32) :
    ∃ s'', s'.undoBlock env {} block blockHash = (true, s'') ∧
      Undone s' (blockOutputsReversed env.hashes (blockTransactions block)) spent blockHash s'' := by
  have found : s'.findUndo env block blockHash = some (blockHash, undoData env.hashes spent) := by
    rw [CUTXOSet.findUndo, record]
  have decoded := decodeUndo_undoData env.hashes short few
  have stages : Stages s' (removals (blockOutputsReversed env.hashes (blockTransactions block)) ++ restorations spent)
      (undoStaged env s' block spent) := coherent.undoStages spent room
  refine ⟨_, ?_, stages.undone short blockHash⟩
  rw [CUTXOSet.undoBlock, if_neg (by simp [coherent.isOpen]), found]
  simp only [undoWithRecord_eq (verifyUndoChecksum_undoData env.hashes spent) nonempty, decoded, if_true]
  rw [Staged.commit_eq (show (finishUndo (undoStaged env s' block spent) blockHash).set.isOpen = true
    from stages.isOpen)]
  rfl

lemma Applied.undoBlock (applied : Applied env s block height blockHash changes spent s')
    (free : SlotFree s.stored (blockEvents env.hashes height block) blockHash)
    (room : (blockEvents env.hashes height block).length ≤ env.maxCacheSize)
    (few : (blockEvents env.hashes height block).length < 2 ^ 32) :
    ∃ s'', s'.undoBlock env {} block blockHash = (true, s'') ∧
      Undone s' (blockOutputsReversed env.hashes (blockTransactions block)) spent blockHash s'' := by
  have length := applied.events_length
  exact undoBlock_of_record (applied.coherent free) applied.nonempty applied.undo applied.short (by omega) (by omega)

/-- An outpoint the block does not name is not named by undoing it either. -/
lemma effectAt_undoEvents_of_unnamed {outpoint : COutPoint}
    (records : spentRecords s.stored s.stored (blockEvents env.hashes height block) = some spent)
    (unnamed : effectAt outpoint (blockEvents env.hashes height block) = none) :
    effectAt outpoint
      (undoEvents ((blockOutputsReversed env.hashes (blockTransactions block)).map Prod.fst) spent) = none := by
  have untouched := (effectAt_eq_none_iff _ _).mp unnamed
  rw [effectAt_undoEvents]
  have notSpent : lastRecord outpoint spent = none := by
    rw [lastRecord_eq_none_iff, spentRecords_keys records]
    intro member
    obtain ⟨event, inside, consumed⟩ := mem_filterMap.mp member
    cases event with
    | consume key => exact untouched _ inside (Option.some.inj consumed)
    | create key value => cases consumed
  have notCreated : outpoint ∉ (blockOutputsReversed env.hashes (blockTransactions block)).map Prod.fst := by
    rw [mem_outputs_iff env.hashes height]
    rintro ⟨entry, inside⟩
    exact untouched _ inside rfl
  simp [notSpent, notCreated]

/-- What an undone block answers: the walk back from the ledger of the walk forward. -/
lemma Undone.view_eq (applied : Applied env s block height blockHash changes spent s')
    (free : SlotFree s.stored (blockEvents env.hashes height block) blockHash)
    (undone : Undone s' (blockOutputsReversed env.hashes (blockTransactions block)) spent blockHash s'')
    (outpoint : COutPoint) :
    s''.view env outpoint = run (run s.stored (blockEvents env.hashes height block))
        (undoEvents ((blockOutputsReversed env.hashes (blockTransactions block)).map Prod.fst) spent) outpoint := by
  rw [CUTXOSet.view, getUTXO_of_settled undone.isOpen undone.additions undone.deletions, undone.stored, run_apply]
  by_cases slot : undoSlot blockHash = outpoint
  · subst slot
    have uncached : s''.cache.lookup (undoSlot blockHash) = none := by
      by_contra present
      obtain ⟨entry, hit⟩ := Option.ne_none_iff_exists'.mp present
      rcases undone.origin _ entry hit with put | ⟨-, before⟩
      · simp [effectAt_undoEvents_of_unnamed applied.records free.unnamed] at put
      · have walked := applied.cached _ entry before
        rw [run_apply, free.unnamed, free.absent] at walked
        cases walked
    simp [uncached, effectAt_undoEvents_of_unnamed applied.records free.unnamed, run_apply, free.unnamed, free.absent]
  · have stored : s'.stored outpoint = run s.stored (blockEvents env.hashes height block) outpoint := by
      rw [applied.stored, if_neg slot]
    rw [if_neg slot, run_apply, stored]
    cases hit : s''.cache.lookup outpoint with
    | none => rfl
    | some entry =>
      rcases undone.origin outpoint entry hit with put | ⟨untouched, before⟩
      · simp [put]
      · simp [untouched, applied.cached outpoint entry before]

structure CountersFit (stats : CUTXOStats) (outputs : List (COutPoint × CTxOut))
    (spent : List SpentRecord) : Prop where
  units : stats.nUTXOs.toNat + outputs.length + spent.length < 2 ^ 64
  amounts : stats.nTotalAmount.toNat + valueSum (outputs.map (fun output => output.2.nValue)) +
    valueSum (spent.map (fun record => record.2.out.nValue)) < 2 ^ 64

structure CountersCover (stats : CUTXOStats) (spent : List SpentRecord) : Prop where
  units : spent.length ≤ stats.nUTXOs.toNat
  amounts : valueSum (spent.map (fun record => record.2.out.nValue)) ≤ stats.nTotalAmount.toNat

lemma valueSum_perm {a b : List UInt64} (perm : a.Perm b) : valueSum a = valueSum b :=
  (perm.map UInt64.toNat).sum_eq

lemma removed_removals (outputs : List (COutPoint × CTxOut)) :
    (removals outputs).filterMap removed = outputs.map (fun output => output.2.nValue) ∧
    (removals outputs).filterMap added = [] := by
  simp [removals, filterMap_map, comp_def, removed, added]

lemma added_restorations (records : List SpentRecord) :
    (restorations records).filterMap added = records.map (fun record => record.2.out.nValue) ∧
    (restorations records).filterMap removed = [] := by
  simp [restorations, filterMap_map, comp_def, removed, added]

section

variable (applied : Applied env s block height blockHash changes spent s')

include applied

lemma Applied.added : (changes.filterMap added).Perm
    ((blockOutputsReversed env.hashes (blockTransactions block)).map (fun output => output.2.nValue)) := by
  have created := created_transactionsEvents env.hashes height (blockTransactions block)
  have same : changes.filterMap Change.added =
      (blockOutputs env.hashes (blockTransactions block)).map (fun output => output.2.nValue) := by
    rw [added_eq, applied.walked, ← created, map_map]
    rfl
  rw [same]
  exact ((blockOutputsReversed_perm env.hashes (blockTransactions block)).map _).symm

/-- Undoing brings the counters back exactly when they covered what the block spent. -/
lemma Undone.counters_iff
    (undone : Undone s' (blockOutputsReversed env.hashes (blockTransactions block)) spent blockHash s'')
    (fits : CountersFit s.stats (blockOutputsReversed env.hashes (blockTransactions block)) spent) :
    (s''.stats.nUTXOs = s.stats.nUTXOs ∧ s''.stats.nTotalAmount = s.stats.nTotalAmount) ↔
      CountersCover s.stats spent := by
  obtain ⟨units, unitsTaken, values, valuesTaken⟩ := sums changes
  obtain ⟨rUnits, rUnitsTaken, rValues, rValuesTaken⟩ :=
    sums (removals (blockOutputsReversed env.hashes (blockTransactions block)))
  obtain ⟨pUnits, pUnitsTaken, pValues, pValuesTaken⟩ := sums (restorations spent)
  rw [(removed_removals _).1] at rUnitsTaken rValuesTaken
  rw [(removed_removals _).2] at rUnits rValues
  rw [(added_restorations _).1] at pUnits pValues
  rw [(added_restorations _).2] at pUnitsTaken pValuesTaken
  rw [applied.added.length_eq] at units
  rw [valueSum_perm applied.added] at values
  rw [applied.removed] at unitsTaken valuesTaken
  simp only [length_map, length_nil, valueSum, map_nil, sum_nil] at *
  have unitFit := fits.units
  have amountFit := fits.amounts
  simp only [valueSum] at amountFit
  have nUTXOs := tally_undo_iff s.stats.nUTXOs (changes.map unitDelta)
    ⟨rUnits, rUnitsTaken.trans units.symm⟩ ⟨pUnitsTaken, pUnits.trans unitsTaken.symm⟩ (by omega)
  have nTotalAmount := tally_undo_iff s.stats.nTotalAmount (changes.map valueDelta)
    ⟨rValues, rValuesTaken.trans values.symm⟩ ⟨pValuesTaken, pValues.trans valuesTaken.symm⟩ (by omega)
  rw [unitsTaken] at nUTXOs
  rw [valuesTaken] at nTotalAmount
  have unitsBack : s''.stats.nUTXOs = s.stats.nUTXOs ↔ spent.length ≤ s.stats.nUTXOs.toNat := by
    rw [← nUTXOs, undone.stats, applied.stats]
    simp [lowerHeight, count_nUTXOs]
  have amountsBack : s''.stats.nTotalAmount = s.stats.nTotalAmount ↔
      ((spent.map fun record => record.2.out.nValue).map UInt64.toNat).sum ≤ s.stats.nTotalAmount.toNat := by
    rw [← nTotalAmount, undone.stats, applied.stats]
    simp [lowerHeight, count_nTotalAmount]
  rw [unitsBack, amountsBack]
  exact ⟨fun both => ⟨both.1, both.2⟩, fun cover => ⟨cover.units, cover.amounts⟩⟩

end

/-- On a coherent set, undoing an accepted block gives back every answer and both counters exactly
when each spent entry had been in the set as recorded, each output that is only created was new, and
the counters covered what was spent. -/
theorem undoBlock_inverts_applyBlock_iff {writes : CUTXOSet.Writes} (coherent : s.Coherent)
    (room : (blockEvents env.hashes height block).length ≤ env.maxCacheSize)
    (few : (blockEvents env.hashes height block).length < 2 ^ 32)
    (free : SlotFree (s.view env) (blockEvents env.hashes height block) blockHash)
    (records : spentRecords (s.view env) (s.view env) (blockEvents env.hashes height block) = some spent)
    (fits : CountersFit s.stats (blockOutputsReversed env.hashes (blockTransactions block)) spent)
    (accepted : s.applyBlock env writes block height blockHash = (true, s')) :
    ((s'.undoBlock env {} block blockHash).1 = true ∧
      (∀ outpoint, (s'.undoBlock env {} block blockHash).2.view env outpoint = s.view env outpoint) ∧
      (s'.undoBlock env {} block blockHash).2.stats.nUTXOs = s.stats.nUTXOs ∧
      (s'.undoBlock env {} block blockHash).2.stats.nTotalAmount = s.stats.nTotalAmount) ↔
    (Restores (s.view env) (blockEvents env.hashes height block) spent ∧ CountersCover s.stats spent) := by
  rw [coherent.view_eq] at free records ⊢
  obtain ⟨changes, found, applied⟩ := applyBlock_applied coherent room accepted
  have same : found = spent := Option.some.inj (applied.records.symm.trans records)
  subst same
  obtain ⟨s'', outcome, undone⟩ := applied.undoBlock free room few
  rw [outcome]
  simp only [true_and, Undone.view_eq applied free undone, undone.counters_iff applied fits]
  rw [undo_restores_iff (fun key => mem_outputs_iff env.hashes height block key) applied.records]

end

theorem undoBlock_inverts_paying : (fundedSet.applyBlock chainEnv {} payingBlock 2 (.ofNat 7)).1 = true ∧
    (((fundedSet.applyBlock chainEnv {} payingBlock 2 (.ofNat 7)).2.undoBlock chainEnv {} payingBlock
        (.ofNat 7)).1 = true ∧
      (∀ outpoint, ((fundedSet.applyBlock chainEnv {} payingBlock 2 (.ofNat 7)).2.undoBlock chainEnv {}
        payingBlock (.ofNat 7)).2.view chainEnv outpoint = fundedSet.view chainEnv outpoint) ∧
      ((fundedSet.applyBlock chainEnv {} payingBlock 2 (.ofNat 7)).2.undoBlock chainEnv {} payingBlock
        (.ofNat 7)).2.stats.nUTXOs = fundedSet.stats.nUTXOs ∧
      ((fundedSet.applyBlock chainEnv {} payingBlock 2 (.ofNat 7)).2.undoBlock chainEnv {} payingBlock
        (.ofNat 7)).2.stats.nTotalAmount = fundedSet.stats.nTotalAmount ↔
      Restores (fundedSet.view chainEnv) (blockEvents chainEnv.hashes 2 payingBlock)
        [(fundedOutPoint, fundedEntry)] ∧ CountersCover fundedSet.stats [(fundedOutPoint, fundedEntry)]) := by
  have accepted : (fundedSet.applyBlock chainEnv {} payingBlock 2 (.ofNat 7)).1 = true := by decide +kernel
  refine ⟨accepted, ?_⟩
  have free : SlotFree (fundedSet.view chainEnv) (blockEvents chainEnv.hashes 2 payingBlock) (.ofNat 7) :=
    ⟨by decide, by decide +kernel⟩
  have fits : CountersFit fundedSet.stats
      (blockOutputsReversed chainEnv.hashes (blockTransactions payingBlock)) [(fundedOutPoint, fundedEntry)] :=
    ⟨by decide +kernel, by decide +kernel⟩
  exact undoBlock_inverts_applyBlock_iff (singletonSet_coherent _ _) (by decide +kernel) (by decide +kernel)
    free (by decide +kernel) fits (Prod.fst_eq_iff.mp accepted)

/-- Applying and undoing a block that spends one of its own outputs leaves that output in the set. -/
theorem undoBlock_leaves_spent_output : (fundedSet.applyBlock chainEnv {} chainBlock 2 (.ofNat 7)).1 = true ∧
    ((fundedSet.applyBlock chainEnv {} chainBlock 2 (.ofNat 7)).2.undoBlock chainEnv {} chainBlock
      (.ofNat 7)).1 = true ∧
    fundedSet.view chainEnv firstOutPoint = none ∧
    ((fundedSet.applyBlock chainEnv {} chainBlock 2 (.ofNat 7)).2.undoBlock chainEnv {} chainBlock
      (.ofNat 7)).2.view chainEnv firstOutPoint = some firstEntry := by
  decide +kernel

end Dilithion
