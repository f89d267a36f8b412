import Dilithion.Node.UtxoStaging
import Dilithion.Script.Interpreter

/-! `ApplyBlock` as a walk along the events of a block: inputs consume, outputs create, in order. -/

namespace Dilithion

open Lib Lib.WriteBatch Lib.Ledger Change

variable (H : HashFunctions) (height : UInt32)

def txEvents (isCoinbase : Bool) (tx : CTransaction) : List UTXOEvent :=
  (if isCoinbase then [] else tx.vin.map (fun txin => .consume txin.prevout)) ++
    (createdOutputs (tx.getHash H) tx.vout).map (fun output => .create output.1 ⟨output.2, height, isCoinbase⟩)

def transactionsEvents : List CTransaction → List UTXOEvent
  | [] => []
  | coinbase :: rest => txEvents H height true coinbase ++ rest.flatMap (txEvents H height false)

def blockEvents (block : CBlock) : List UTXOEvent :=
  transactionsEvents H height (blockTransactions block)

lemma mem_createdOutputs {txid : Uint256} {vout : List CTxOut} {output : COutPoint × CTxOut}
    (member : output ∈ createdOutputs txid vout) : output.2 ∈ vout := by
  simp only [createdOutputs, List.mem_map] at member
  obtain ⟨indexed, inside, rfl⟩ := member
  exact (List.mem_zipIdx inside).2.2 ▸ List.getElem_mem _

variable {tx : CTransaction}

lemma mem_blockTransactions_script {block : CBlock} {txout : CTxOut}
    (member : tx ∈ blockTransactions block) (output : txout ∈ tx.vout) : txout.scriptPubKey.length ≤ 10000 := by
  unfold blockTransactions at member
  split at member
  · simp at member
  · rename_i transactions decoded
    exact CBlockValidator.script_bound_of_deserializeBlockTransactions decoded tx member txout output

lemma created_mem_txEvents {H : HashFunctions} {height : UInt32} {isCoinbase : Bool}
    {outpoint : COutPoint} {entry : CUTXOEntry}
    (member : Event.create outpoint entry ∈ txEvents H height isCoinbase tx) : entry.out ∈ tx.vout := by
  simp only [txEvents, List.mem_append, List.mem_map] at member
  rcases member with inputs | ⟨output, inside, same⟩
  · split at inputs <;> simp at inputs
  · cases same
    exact mem_createdOutputs inside

lemma shortEvents_blockEvents (block : CBlock) : ShortEvents (blockEvents H height block) := by
  intro outpoint entry member
  have fromTx : ∃ tx ∈ blockTransactions block, entry.out ∈ tx.vout := by
    unfold blockEvents transactionsEvents at member
    split at member
    · simp at member
    · rename_i coinbase rest same
      rw [same]
      rcases List.mem_append.mp member with first | later
      · exact ⟨coinbase, by simp, created_mem_txEvents first⟩
      · obtain ⟨tx, inside, created⟩ := List.mem_flatMap.mp later
        exact ⟨tx, by simp [inside], created_mem_txEvents created⟩
  obtain ⟨tx, inside, output⟩ := fromTx
  have bound := mem_blockTransactions_script inside output
  simp only [CUTXOEntry.Short]
  omega

/-- The changes made by a walk that looks items up in the current ledger and then in `base`, up to
the first input found in neither. -/
def walkChanges (base : UTXOLedger) :
    UTXOLedger → List UTXOEvent → List Change
  | _, [] => []
  | now, .consume outpoint :: rest =>
    match (now outpoint).or (base outpoint) with
    | none => []
    | some entry =>
      .remove outpoint entry.out.nValue :: walkChanges base ((Event.consume outpoint).apply now) rest
  | now, .create outpoint entry :: rest =>
    .put outpoint entry :: walkChanges base ((Event.create outpoint entry).apply now) rest

lemma walkChanges_append {base now : UTXOLedger} {before : List UTXOEvent}
    (complete : (walkChanges base now before).map event = before) (after : List UTXOEvent) :
    walkChanges base now (before ++ after) =
      walkChanges base now before ++ walkChanges base (run now before) after := by
  induction before generalizing now with
  | nil => rfl
  | cons event rest ih =>
    cases event with
    | create outpoint entry =>
      simp only [walkChanges, List.map_cons, event_put, List.cons.injEq, true_and] at complete
      simp [walkChanges, ih complete]
    | consume outpoint =>
      simp only [walkChanges] at complete
      cases found : (now outpoint).or (base outpoint) with
      | none => simp [found] at complete
      | some entry =>
        simp only [found, List.map_cons, event_remove, List.cons.injEq, true_and] at complete
        simp [walkChanges, found, ih complete]

structure Applies (base : CUTXOSet) (events : List UTXOEvent) (changes : List Change)
    (applying : Applying) : Prop where
  stages : Stages base changes applying.staged
  walked : changes.map event = events
  walk : walkChanges base.stored base.stored events = changes
  removed : changes.filterMap removed = applying.spent.map (fun record => record.2.out.nValue)
  records : spentRecords base.stored base.stored events = some applying.spent

structure Stops (base : CUTXOSet) (events : List UTXOEvent) (changes : List Change)
    (set : CUTXOSet) : Prop where
  applies : ∃ applying, Applies base (changes.map event) changes applying ∧ applying.staged.set = set
  missing : ∃ outpoint rest, events = changes.map event ++ .consume outpoint :: rest ∧
    (run base.stored (changes.map event) outpoint).or (base.stored outpoint) = none

def Follows (base : CUTXOSet) (events : List UTXOEvent) : Except CUTXOSet Applying → Prop
  | .ok applying => ∃ changes, Applies base events changes applying
  | .error set => ∃ changes, Stops base events changes set

variable {base : CUTXOSet} {events : List UTXOEvent} {changes : List Change} {applying : Applying}

lemma Applies.length (applies : Applies base events changes applying) : changes.length = events.length := by
  rw [← applies.walked, List.length_map]

lemma Applies.extend_walk (applies : Applies base events changes applying)
    (later : List UTXOEvent) :
    walkChanges base.stored base.stored (events ++ later) =
      changes ++ walkChanges base.stored (run base.stored events) later := by
  have complete : (walkChanges base.stored base.stored events).map event = events := by
    rw [applies.walk, applies.walked]
  rw [walkChanges_append complete, applies.walk]

lemma Stops.walk {set : CUTXOSet} (stops : Stops base events changes set) :
    walkChanges base.stored base.stored events = changes := by
  obtain ⟨applying, applies, -⟩ := stops.applies
  obtain ⟨outpoint, rest, split, missing⟩ := stops.missing
  rw [split, applies.extend_walk]
  simp [walkChanges, missing]

lemma Stops.extend
    {set : CUTXOSet} (stops : Stops base events changes set) (later : List UTXOEvent) :
    Stops base (events ++ later) changes set := by
  obtain ⟨outpoint, rest, split, missing⟩ := stops.missing
  exact ⟨stops.applies, outpoint, rest ++ later, by simp [split], missing⟩

/-- A step after the loop so far: its failures extend failures, its results extend results. -/
lemma Follows.bind {later : List UTXOEvent}
    {result : Except CUTXOSet Applying} {next : Applying → Except CUTXOSet Applying}
    (follows : Follows base events result)
    (step : ∀ changes applying, Applies base events changes applying →
      Follows base (events ++ later) (next applying)) : Follows base (events ++ later) (result >>= next) := by
  cases result with
  | error set =>
    obtain ⟨changes, stops⟩ := follows
    exact ⟨changes, stops.extend later⟩
  | ok applying =>
    obtain ⟨changes, applies⟩ := follows
    exact step changes applying applies

variable {env : Env}

section

variable (applies : Applies base events changes applying)

include applies

lemma spendInput_follows (room : events.length < env.maxCacheSize) (txin : CTxIn) :
    Follows base (events ++ [.consume txin.prevout]) (spendInput env applying txin) := by
  have stages := applies.stages
  have answer : (applying.staged.set.getUTXO env txin.prevout).1 =
      (run base.stored (changes.map event) txin.prevout).or (base.stored txin.prevout) := by
    rw [getUTXO_of_settled stages.isOpen stages.additions stages.deletions, ← stages.lookup,
      CUTXOSet.stored_eq, stages.db]
    rfl
  unfold spendInput
  split
  · rename_i set missing
    have unchanged := getUTXO_missing missing
    subst unchanged
    refine ⟨changes, ⟨applying, applies.walked.symm ▸ applies, rfl⟩, txin.prevout, [], by rw [applies.walked], ?_⟩
    rw [← answer, missing]
  · rename_i entry set found
    have present : (run base.stored events txin.prevout).or (base.stored txin.prevout) = some entry := by
      rw [← applies.walked, ← answer, found]
    refine ⟨changes ++ [.remove txin.prevout entry.out.nValue], ?_, by simp [applies.walked],
      by rw [applies.extend_walk]; simp [walkChanges, present], ?_, ?_⟩
    · rcases getUTXO_loads found with same | loaded
      · subst same
        exact stages.remove txin.prevout entry.out.nValue
      · subst loaded
        refine stages.remove_of txin.prevout entry.out.nValue
          (fun other _ different hit => LruCache.lookup_update_ne different hit) ?_
        refine (stages.retained.update (applies.length ▸ room) txin.prevout entry).mono (Nat.le_refl _) ?_
        exact fun other found member => .inr member
    · simp [applies.removed, removed]
    · rw [spentRecords_append, applies.records]
      simp [spentRecords, present]

lemma spendInputs_follows (vin : List CTxIn) (room : events.length + vin.length ≤ env.maxCacheSize) :
    Follows base (events ++ vin.map (fun txin => .consume txin.prevout)) (vin.foldlM (spendInput env) applying) := by
  induction vin generalizing events changes applying with
  | nil => exact ⟨changes, by simpa using applies⟩
  | cons txin rest ih =>
    simp only [List.length_cons] at room
    rw [List.map_cons, List.append_cons]
    refine (spendInput_follows applies (by omega) txin).bind fun changes' applying' applies' => ?_
    refine ih applies' ?_
    simp only [List.length_append, List.length_cons, List.length_nil]
    omega

lemma addOutputs_applies (height : UInt32) (isCoinbase : Bool) (outputs : List (COutPoint × CTxOut))
    (room : events.length + outputs.length ≤ env.maxCacheSize) :
    ∃ changes', Applies base (events ++ outputs.map (fun output => .create output.1 ⟨output.2, height, isCoinbase⟩))
      changes' { applying with staged := addOutputs env height isCoinbase applying.staged outputs } := by
  induction outputs generalizing events changes applying with
  | nil => exact ⟨changes, by simpa [addOutputs] using applies⟩
  | cons output rest ih =>
    simp only [List.length_cons] at room
    have step : Applies base (events ++ [.create output.1 ⟨output.2, height, isCoinbase⟩])
        (changes ++ [.put output.1 ⟨output.2, height, isCoinbase⟩])
        { applying with staged := applying.staged.put env output.1 ⟨output.2, height, isCoinbase⟩ } :=
      { stages := applies.stages.put (by rw [applies.length]; omega) _ _
        walked := by simp [applies.walked]
        walk := by rw [applies.extend_walk]; simp [walkChanges]
        removed := by simp [applies.removed, removed]
        records := by rw [spentRecords_append, applies.records]; simp [spentRecords] }
    obtain ⟨changes', applied⟩ := ih step (by
      simp only [List.length_append, List.length_cons, List.length_nil]
      omega)
    exact ⟨changes', by simpa [addOutputs] using applied⟩

lemma applyTransaction_follows (height : UInt32) (isCoinbase : Bool) (tx : CTransaction)
    (room : events.length + (txEvents env.hashes height isCoinbase tx).length ≤ env.maxCacheSize) :
    Follows base (events ++ txEvents env.hashes height isCoinbase tx)
      (applyTransaction env height isCoinbase applying tx) := by
  simp only [txEvents, List.length_append, List.length_map] at room
  rw [txEvents, ← List.append_assoc]
  refine Follows.bind ?_ fun changes' applying' applies' => ?_
  · cases isCoinbase with
    | true => exact ⟨changes, by simpa using applies⟩
    | false =>
      simp only [Bool.false_eq_true, if_false, List.length_map] at room ⊢
      exact spendInputs_follows applies tx.vin (by omega)
  · exact addOutputs_applies applies' height isCoinbase _ (by
      simp only [List.length_append]
      omega)

lemma applyRest_follows (height : UInt32) (transactions : List CTransaction)
    (room : events.length + (transactions.flatMap (txEvents env.hashes height false)).length ≤ env.maxCacheSize) :
    Follows base (events ++ transactions.flatMap (txEvents env.hashes height false))
      (transactions.foldlM (applyTransaction env height false) applying) := by
  induction transactions generalizing events changes applying with
  | nil => exact ⟨changes, by simpa using applies⟩
  | cons tx rest ih =>
    simp only [List.flatMap_cons, List.length_append] at room
    rw [List.flatMap_cons, ← List.append_assoc]
    refine (applyTransaction_follows applies height false tx (by omega)).bind
      fun changes' applying' applies' => ih applies' ?_
    simp only [List.length_append]
    omega

end

lemma applyTransactions_follows {s : CUTXOSet} (coherent : s.Coherent) (height : UInt32)
    (transactions : List CTransaction)
    (room : (transactionsEvents env.hashes height transactions).length ≤ env.maxCacheSize) :
    Follows s (transactionsEvents env.hashes height transactions)
      (applyTransactions env height ⟨⟨s, []⟩, []⟩ transactions) := by
  have start : Applies s [] [] ⟨⟨s, []⟩, []⟩ := ⟨coherent.stages, rfl, rfl, rfl, rfl⟩
  cases transactions with
  | nil => exact ⟨[], start⟩
  | cons coinbase rest =>
    simp only [transactionsEvents, List.length_append] at room
    refine Follows.bind ?_ fun changes applying applies => applyRest_follows applies height rest ?_
    · exact applyTransaction_follows start height true coinbase (by simpa using (by omega))
    · omega

section

variable {env : Env} {s s' : CUTXOSet} {block : CBlock} {height : UInt32} {blockHash : Uint256}

/-- Everything a call of `ApplyBlock` on a coherent set can do. -/
lemma applyBlock_cases (writes : CUTXOSet.Writes) (blockHash : Uint256) (coherent : s.Coherent)
    (room : (blockEvents env.hashes height block).length ≤ env.maxCacheSize) :
    (blockTransactions block = [] ∧ s.applyBlock env writes block height blockHash = (false, s)) ∨
    (∃ changes set, Stops s (blockEvents env.hashes height block) changes set ∧
      s.applyBlock env writes block height blockHash = (false, set)) ∨
    (∃ changes applying, blockTransactions block ≠ [] ∧
      Applies s (blockEvents env.hashes height block) changes applying ∧
      s.applyBlock env writes block height blockHash = (applying.finish env height blockHash).commit writes) := by
  have follows := applyTransactions_follows coherent height (blockTransactions block) room
  simp only [CUTXOSet.applyBlock, coherent.isOpen, not_true_eq_false, if_false]
  by_cases empty : blockTransactions block = []
  · exact .inl ⟨empty, by simp [empty]⟩
  · rw [if_neg (by simpa using empty)]
    cases walk : applyTransactions env height ⟨⟨s, []⟩, []⟩ (blockTransactions block) with
    | error set =>
      rw [walk] at follows
      obtain ⟨changes, stops⟩ := follows
      exact .inr (.inl ⟨changes, set, stops, rfl⟩)
    | ok applying =>
      rw [walk] at follows
      obtain ⟨changes, applies⟩ := follows
      exact .inr (.inr ⟨changes, applying, empty, applies, rfl⟩)

structure Applied (env : Env) (s : CUTXOSet) (block : CBlock) (height : UInt32) (blockHash : Uint256)
    (changes : List Change) (spent : List SpentRecord) (s' : CUTXOSet) : Prop where
  isOpen : s'.isOpen = true
  additions : s'.cacheAdditions = ∅
  deletions : s'.cacheDeletions = ∅
  nonempty : blockTransactions block ≠ []
  walked : changes.map event = blockEvents env.hashes height block
  removed : changes.filterMap removed = spent.map (fun record => record.2.out.nValue)
  records : spentRecords s.stored s.stored (blockEvents env.hashes height block) = some spent
  undo : s'.db.lookup (undoKey blockHash) = some (undoData env.hashes spent)
  others : ∀ other, other ≠ blockHash → effectAt (undoSlot other) (blockEvents env.hashes height block) = none →
    s'.db.lookup (undoKey other) = s.db.lookup (undoKey other)
  stats : s'.stats = { changes.foldl count s.stats with nHeight := height }
  stored : ∀ outpoint, s'.stored outpoint =
    if undoSlot blockHash = outpoint then deserializeUTXOEntry (undoData env.hashes spent)
    else run s.stored (blockEvents env.hashes height block) outpoint
  cached : ∀ outpoint entry, s'.cache.lookup outpoint = some entry →
    run s.stored (blockEvents env.hashes height block) outpoint = some entry

lemma Applies.committed {changes : List Change} {applying : Applying} (nonempty : blockTransactions block ≠ [])
    (applies : Applies s (blockEvents env.hashes height block) changes applying) :
    Applied env s block height blockHash changes applying.spent (applying.finish env height blockHash).committed := by
  have stages := applies.stages
  have additions : (applying.finish env height blockHash).set.cacheAdditions = ∅ := stages.additions
  have deletions : (applying.finish env height blockHash).set.cacheDeletions = ∅ := stages.deletions
  have short : ShortEvents (changes.map event) :=
    applies.walked ▸ shortEvents_blockEvents env.hashes height block
  have batch : (applying.finish env height blockHash).written.db =
      write (changes.map op ++ [.put (undoKey blockHash) (undoData env.hashes applying.spent)]) s.db := by
    simp only [Staged.written, Applying.finish, stages.batch, stages.db]
  exact {
    isOpen := stages.isOpen
    additions := rfl
    deletions := rfl
    nonempty := nonempty
    walked := applies.walked
    removed := applies.removed
    records := applies.records
    undo := by
      rw [Staged.lookup_committed additions deletions (statsKey_ne_undoKey blockHash).symm, batch, lookup_write_concat]
      simp [Op.key, Op.effect]
    others := by
      intro other different apart
      rw [Staged.lookup_committed additions deletions (statsKey_ne_undoKey other).symm, batch]
      exact lookup_write_other_undo s.db _ rfl different (applies.walked ▸ apart)
    stats := by
      show { applying.staged.set.stats with nHeight := height } = _
      rw [stages.stats]
    stored := by
      intro outpoint
      rw [Staged.stored_committed additions deletions, CUTXOSet.stored_eq, batch,
        storedIn_write_undo short s.db (.put (undoKey blockHash) (undoData env.hashes applying.spent)) rfl,
        applies.walked]
      rfl
    cached := by
      intro outpoint entry hit
      rw [← applies.walked]
      exact stages.cached outpoint entry hit }

lemma applyBlock_applied {writes : CUTXOSet.Writes} (coherent : s.Coherent)
    (room : (blockEvents env.hashes height block).length ≤ env.maxCacheSize)
    (accepted : s.applyBlock env writes block height blockHash = (true, s')) :
    ∃ changes spent, Applied env s block height blockHash changes spent s' := by
  rcases applyBlock_cases writes blockHash coherent room with
    ⟨-, refused⟩ | ⟨changes, set, -, refused⟩ | ⟨changes, applying, nonempty, applies, outcome⟩
  · simp [accepted] at refused
  · simp [accepted] at refused
  · have isOpen : (applying.finish env height blockHash).set.isOpen = true := applies.stages.isOpen
    rw [outcome] at accepted
    have same := Staged.commit_eq_true isOpen accepted
    subst same
    exact ⟨changes, applying.spent, applies.committed nonempty⟩

end

/-! What an accepted block spends. Lookups read through to the database, where a removal that is only
staged does not show, so `ApplyBlock` accepts an outpoint that the block itself has consumed already.
It also stores the data outputs that start with `OP_RETURN`, and the undo record it writes may read
back as an entry of the outpoint that shares its key. -/

def leavesSpendable : Option CUTXOEntry → Bool
  | none => true
  | some entry => !isUnspendable entry.out.scriptPubKey

variable (events : List UTXOEvent)

def spendableEvents : List UTXOEvent :=
  events.filter (fun event => leavesSpendable event.effect)

/-- The outpoint that shares its key with the block's undo record is neither in the ledger nor named
by the block. -/
structure SlotFree (ledger : UTXOLedger) (events : List UTXOEvent)
    (blockHash : Uint256) : Prop where
  absent : ledger (undoSlot blockHash) = none
  unnamed : effectAt (undoSlot blockHash) events = none

variable (ledger : UTXOLedger)

/-- An unspendable output that the block leaves in place was there before, as the same entry, and the
block does nothing else to it. -/
def KeepsNoData (events : List UTXOEvent) : Prop :=
  ∀ outpoint entry, effectAt outpoint events = some (some entry) → isUnspendable entry.out.scriptPubKey = true →
    ledger outpoint = some entry ∧ effectAt outpoint (spendableEvents events) = none

/-- The undo record of the entries the block spends does not read as a UTXO entry. -/
def UndoUnreadable (H : HashFunctions) (ledger : UTXOLedger)
    (events : List UTXOEvent) : Prop :=
  ∀ spent, spentRecords ledger ledger events = some spent → deserializeUTXOEntry (undoData H spent) = none

lemma run_spendableEvents_iff (events : List UTXOEvent) :
    (∀ outpoint, run ledger events outpoint = run ledger (spendableEvents events) outpoint) ↔
      KeepsNoData ledger events := by
  constructor
  · intro same outpoint entry last unspendable
    exact (run_filter_eq_iff leavesSpendable ledger events outpoint).mp (same outpoint) (some entry) last
      (by simp [leavesSpendable, unspendable])
  · intro keeps outpoint
    apply (run_filter_eq_iff leavesSpendable ledger events outpoint).mpr
    intro left last dropped
    cases left with
    | none => simp [leavesSpendable] at dropped
    | some entry => exact keeps outpoint entry last (by simpa [leavesSpendable] using dropped)

section

variable {env : Env} {s s' : CUTXOSet} {block : CBlock} {height : UInt32} {blockHash : Uint256}
  {changes : List Change} {spent : List SpentRecord}

section

variable (applied : Applied env s block height blockHash changes spent s')
  (free : SlotFree s.stored (blockEvents env.hashes height block) blockHash)

include applied free

/-- After an accepted block every answer is that of the walk, except in the slot of the undo key. -/
lemma Applied.view_eq (outpoint : COutPoint) : s'.view env outpoint =
    if undoSlot blockHash = outpoint then deserializeUTXOEntry (undoData env.hashes spent)
    else run s.stored (blockEvents env.hashes height block) outpoint := by
  rw [CUTXOSet.view, getUTXO_of_settled applied.isOpen applied.additions applied.deletions, applied.stored]
  cases hit : s'.cache.lookup outpoint with
  | none => rfl
  | some entry =>
    have walked := applied.cached outpoint entry hit
    have other : undoSlot blockHash ≠ outpoint := by
      rintro rfl
      rw [run_apply, free.unnamed, free.absent] at walked
      cases walked
    rw [if_neg other, walked]
    rfl

lemma Applied.coherent : s'.Coherent where
  isOpen := applied.isOpen
  additions := applied.additions
  deletions := applied.deletions
  cached := by
    intro outpoint entry hit
    have answer := applied.view_eq free outpoint
    rw [CUTXOSet.view, getUTXO_of_settled applied.isOpen applied.additions applied.deletions, hit,
      ← applied.stored] at answer
    exact answer.symm

lemma Applied.view_eq_spendable_iff :
    (∀ outpoint, s'.view env outpoint = run s.stored (spendableEvents (blockEvents env.hashes height block)) outpoint) ↔
      KeepsNoData s.stored (blockEvents env.hashes height block) ∧
        deserializeUTXOEntry (undoData env.hashes spent) = none := by
  have slotRun : run s.stored (blockEvents env.hashes height block) (undoSlot blockHash) = none := by
    rw [run_apply, free.unnamed, Option.getD_none, free.absent]
  have slotKept := (run_filter_eq_iff leavesSpendable s.stored (blockEvents env.hashes height block)
    (undoSlot blockHash)).mpr (by simp [free.unnamed])
  rw [← run_spendableEvents_iff]
  constructor
  · intro same
    refine ⟨fun outpoint => ?_, ?_⟩
    · by_cases slot : undoSlot blockHash = outpoint
      · rw [← slot]
        exact slotKept
      · rw [← same outpoint, applied.view_eq free, if_neg slot]
    · have atSlot := same (undoSlot blockHash)
      rw [applied.view_eq free, if_pos rfl] at atSlot
      rw [atSlot, spendableEvents, ← slotKept, slotRun]
  · rintro ⟨same, unreadable⟩ outpoint
    rw [applied.view_eq free]
    by_cases slot : undoSlot blockHash = outpoint
    · rw [if_pos slot, unreadable, ← same outpoint, ← slot, slotRun]
    · rw [if_neg slot, same outpoint]

end

end

/-- On a coherent set an accepted block consumes unspent outputs only and leaves the walk's ledger of
spendable outputs exactly when it consumes no outpoint twice, leaves no data output behind and its
undo record cannot be read as an entry. -/
theorem applyBlock_spends_unspent_iff {env : Env} {writes : CUTXOSet.Writes} {s s' : CUTXOSet} {block : CBlock}
    {height : UInt32} {blockHash : Uint256} (coherent : s.Coherent)
    (room : (blockEvents env.hashes height block).length ≤ env.maxCacheSize)
    (free : SlotFree (s.view env) (blockEvents env.hashes height block) blockHash)
    (accepted : s.applyBlock env writes block height blockHash = (true, s')) :
    (EachUnspent (s.view env) (blockEvents env.hashes height block) ∧ ∀ outpoint, s'.view env outpoint =
        run (s.view env) (spendableEvents (blockEvents env.hashes height block)) outpoint) ↔
    (NoRespend [] (blockEvents env.hashes height block) ∧
      KeepsNoData (s.view env) (blockEvents env.hashes height block) ∧
      UndoUnreadable env.hashes (s.view env) (blockEvents env.hashes height block)) := by
  rw [coherent.view_eq] at free ⊢
  obtain ⟨changes, spent, applied⟩ := applyBlock_applied coherent room accepted
  have unspent : EachUnspent s.stored (blockEvents env.hashes height block) ↔
      NoRespend [] (blockEvents env.hashes height block) :=
    eachUnspent_iff_noRespend applied.records
  have unreadable : UndoUnreadable env.hashes s.stored (blockEvents env.hashes height block) ↔
      deserializeUTXOEntry (undoData env.hashes spent) = none := by
    constructor
    · exact fun all => all spent applied.records
    · intro read other records
      rw [applied.records, Option.some.injEq] at records
      rwa [← records]
  rw [unspent, applied.view_eq_spendable_iff free, unreadable]

def emptySet : CUTXOSet := ⟨true, ∅, ∅, ∅, ∅, ⟨0, 0, 0⟩⟩

def singletonSet (outpoint : COutPoint) (entry : CUTXOEntry) : CUTXOSet :=
  { emptySet with
    db := AList.singleton (serializeOutPoint outpoint) (serializeUTXOEntry entry)
    stats := ⟨1, entry.out.nValue, entry.nHeight⟩ }

lemma emptySet_coherent : emptySet.Coherent := ⟨rfl, rfl, rfl, by simp [emptySet]⟩

lemma singletonSet_coherent (outpoint : COutPoint) (entry : CUTXOEntry) : (singletonSet outpoint entry).Coherent :=
  ⟨rfl, rfl, rfl, by simp [singletonSet, emptySet]⟩

def blockOf (hashPrevBlock : Uint256) (transactions : List CTransaction) : CBlock where
  nVersion := 4
  hashPrevBlock := hashPrevBlock
  hashMerkleRoot := .null
  nTime := 0
  nBits := 0
  nNonce := 0
  vdfOutput := .null
  vdfProofHash := .null
  vtx := serializeCompactSize transactions.length ++ transactions.flatMap CTransaction.serialize

def rewardTx : CTransaction :=
  ⟨1, [⟨⟨.null, 0xFFFFFFFF⟩, [1, 1], 0xFFFFFFFF⟩], [⟨5000000000, [0x51]⟩], 0⟩

def fundedOutPoint : COutPoint := ⟨.ofNat 0xf00d, 0⟩

def fundedEntry : CUTXOEntry := ⟨⟨100000000, [0x51]⟩, 1, false⟩

def doubleSpendTx : CTransaction :=
  ⟨1, [⟨fundedOutPoint, [], 0xFFFFFFFF⟩, ⟨fundedOutPoint, [], 0xFFFFFFFF⟩], [⟨200000000, [0x51]⟩], 0⟩

def doubleSpendEnv : Env where
  hashes := .ofTable
    [(rewardTx.serialize, .ofNat 0xa951c761ccf84b3da96d92fda7ade8f149a3a24abd4c1774705bd3f56280df33),
     (doubleSpendTx.serialize, .ofNat 0x53bc6ce598e6e30e9897624a9a2dd59a32dae9c0e161a1b9f1b672fcab6901fa),
     (undoPayload [], .ofNat 0xa29241d93a750b60ce816f60c61fbfd381d8f79699e527bef78b3cd885230a8b),
     (undoPayload [(fundedOutPoint, fundedEntry), (fundedOutPoint, fundedEntry)],
       .ofNat 0xf8ed1aa939e638fdb7bb06bcc0349002e042bafc7c2571b3b387c386a2ccfb6d)]

def firstTx : CTransaction := ⟨1, [⟨fundedOutPoint, [], 0xFFFFFFFF⟩], [⟨99000000, [0x51]⟩], 0⟩

def firstOutPoint : COutPoint := ⟨.ofNat 0xd9d543c09483ea0d7e47008f791935fb694a581988424b96320f0ef6c958af41, 0⟩

def firstEntry : CUTXOEntry := ⟨⟨99000000, [0x51]⟩, 2, false⟩

def secondTx : CTransaction := ⟨1, [⟨firstOutPoint, [], 0xFFFFFFFF⟩], [⟨98000000, [0x51]⟩], 0⟩

def chainEnv : Env where
  hashes := .ofTable
    [(rewardTx.serialize, .ofNat 0xa951c761ccf84b3da96d92fda7ade8f149a3a24abd4c1774705bd3f56280df33),
     (firstTx.serialize, firstOutPoint.hash),
     (secondTx.serialize, .ofNat 0x485f8ca2f1ac67529a57a791a595ab994807e55ac2e5d7a9b43f2c0a4e4e72b5),
     (undoPayload [(fundedOutPoint, fundedEntry)],
       .ofNat 0x1eb7c944e641b242080f1556211249e61980e95b952dfca70c9cbfdf10f06fa0),
     (undoPayload [(fundedOutPoint, fundedEntry), (firstOutPoint, firstEntry)],
       .ofNat 0x7b4bcbe2224fba2ebec79e391e68667ef1fc18c6d255089261afc76dea55ca0c)]

def fundedSet : CUTXOSet := singletonSet fundedOutPoint fundedEntry

def payingBlock : CBlock := blockOf .null [rewardTx, firstTx]

def chainBlock : CBlock := blockOf .null [rewardTx, firstTx, secondTx]

/-- The block spends the funded output, and its outputs are the ones that are left. -/
theorem applyBlock_spends_unspent_paying :
    (fundedSet.applyBlock chainEnv {} payingBlock 2 (.ofNat 7)).1 = true ∧
    EachUnspent (fundedSet.view chainEnv) (blockEvents chainEnv.hashes 2 payingBlock) ∧
    ∀ outpoint, (fundedSet.applyBlock chainEnv {} payingBlock 2 (.ofNat 7)).2.view chainEnv outpoint =
      run (fundedSet.view chainEnv) (spendableEvents (blockEvents chainEnv.hashes 2 payingBlock)) outpoint := by
  have accepted : (fundedSet.applyBlock chainEnv {} payingBlock 2 (.ofNat 7)).1 = true := by decide +kernel
  have spendable : spendableEvents (blockEvents chainEnv.hashes 2 payingBlock) =
      blockEvents chainEnv.hashes 2 payingBlock := by
    decide +kernel
  refine ⟨accepted, (applyBlock_spends_unspent_iff (singletonSet_coherent _ _) (by decide +kernel)
    ⟨by decide, by decide +kernel⟩ (Prod.fst_eq_iff.mp accepted)).mpr ⟨by decide +kernel, ?_, ?_⟩⟩
  · exact (run_spendableEvents_iff _ _).mp fun outpoint => by rw [spendable]
  · intro spent records
    have found : spentRecords (fundedSet.view chainEnv) (fundedSet.view chainEnv)
      (blockEvents chainEnv.hashes 2 payingBlock) =
      some [(fundedOutPoint, fundedEntry)] := by decide +kernel
    cases found.symm.trans records
    decide +kernel

/-- The block spends the funded output twice and is accepted. -/
theorem applyBlock_accepts_double_spend : fundedSet.Coherent ∧
    (fundedSet.applyBlock doubleSpendEnv {} (blockOf .null [rewardTx, doubleSpendTx]) 2 (.ofNat 7)).1 = true ∧
    ¬ EachUnspent (fundedSet.view doubleSpendEnv)
      (blockEvents doubleSpendEnv.hashes 2 (blockOf .null [rewardTx, doubleSpendTx])) :=
  ⟨singletonSet_coherent _ _, by decide +kernel, by decide +kernel⟩

end Dilithion
