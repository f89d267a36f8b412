import Dilithion.Node.PendingBlocks

/-! The UTXO set against a plain map. The map has no cache, no pending changes and no database: it
holds the unspent entries and the records of what each applied block spent. Every call is compared with
the same call on the map, and the answers of `GetUTXO` agree after every run whose calls keep clear of
each other: a block names no outpoint with a pending change, consumes none twice, and fits the cache. -/

namespace Dilithion

open Lib Lib.WriteBatch Lib.Ledger CUTXOSet Change Staged List Option AList Function

structure PlainSet where
  entries : UTXOLedger
  records : Uint256 → Option (List SpentRecord)

namespace PlainSet

def empty : PlainSet := ⟨fun _ => none, fun _ => none⟩

variable (p : PlainSet)

def addUTXO (outpoint : COutPoint) (entry : CUTXOEntry) : PlainSet :=
  { p with entries := Function.update p.entries outpoint (some entry) }

def spendUTXO (outpoint : COutPoint) : PlainSet :=
  { p with entries := Function.update p.entries outpoint none }

variable (H : HashFunctions)

/-- Every input has to be unspent when its turn comes; otherwise the block changes nothing. -/
def applyBlock (p : PlainSet) (block : CBlock) (height : UInt32) (blockHash : Uint256) : PlainSet :=
  if (blockTransactions block).isEmpty then p
  else match spentRecords (fun _ => none) p.entries (blockEvents H height block) with
    | none => p
    | some spent => {
        entries := run p.entries (blockEvents H height block)
        records := Function.update p.records blockHash (some spent) }

def findUndo (p : PlainSet) (block : CBlock) (blockHash : Uint256) : Option (Uint256 × List SpentRecord) :=
  match p.records blockHash with
  | some spent => some (blockHash, spent)
  | none =>
    let computedHash := block.toCBlockHeader.getHash H
    if computedHash ≠ blockHash then (p.records computedHash).map (fun spent => (computedHash, spent)) else none

variable (block : CBlock)

def outputs : List COutPoint :=
  (blockOutputsReversed H (blockTransactions block)).map Prod.fst

def undoBlock (p : PlainSet) (block : CBlock) (blockHash : Uint256) : PlainSet :=
  if (blockTransactions block).isEmpty then p
  else match p.findUndo H block blockHash with
    | none =>
      if (blockTransactions block).tail.any (fun tx => ¬ tx.vin.isEmpty) then p
      else { p with entries := run p.entries (undoEvents (outputs H block) []) }
    | some (storedUnder, spent) => {
        entries := run p.entries (undoEvents (outputs H block) spent)
        records := Function.update p.records storedUnder none }

def undoChanges (p : PlainSet) (block : CBlock) (blockHash : Uint256) : List Change :=
  removals (blockOutputsReversed H (blockTransactions block)) ++
    restorations ((p.findUndo H block blockHash).elim [] Prod.snd)

def undoNames (p : PlainSet) (block : CBlock) (blockHash : Uint256) : List COutPoint :=
  (p.undoChanges H block blockHash).map fun change => change.event.key

lemma undoNames_eq (p : PlainSet) (block : CBlock) (blockHash : Uint256) : p.undoNames H block blockHash =
    outputs H block ++ ((p.findUndo H block blockHash).elim [] Prod.snd).map Prod.fst := by
  simp [undoNames, undoChanges, removals, restorations, outputs, comp_def]

end PlainSet

/-- The transaction id starts with `"ndo_"`, so that the database key of the outpoint is an undo key. -/
def UndoLike (outpoint : COutPoint) : Prop := outpoint.hash.data.take 4 = [0x6e, 0x64, 0x6f, 0x5f]

instance (outpoint : COutPoint) : Decidable (UndoLike outpoint) := inferInstanceAs (Decidable (_ = _))

lemma undoLike_undoSlot (blockHash : Uint256) : UndoLike (undoSlot blockHash) := by
  simp [UndoLike, undoSlot]

/-- A record that can be written, read back, and not taken for an entry. -/
structure GoodRecord (H : HashFunctions) (spent : List SpentRecord) : Prop where
  few : spent.length < 2 ^ 32
  short : ∀ record ∈ spent, record.2.Short
  unreadable : deserializeUTXOEntry (undoData H spent) = none
  clear : ∀ record ∈ spent, ¬ UndoLike record.1

structure Represents (H : HashFunctions) (s : CUTXOSet) (p : PlainSet) : Prop where
  consistent : s.Consistent
  entries : s.held = p.entries
  slots : ∀ hash, s.Unpending (undoSlot hash)
  recorded : ∀ hash spent, p.records hash = some spent →
    s.db.lookup (undoKey hash) = some (undoData H spent) ∧ GoodRecord H spent
  unrecorded : ∀ hash, p.records hash = none → s.db.lookup (undoKey hash) = none

namespace Represents

variable {H : HashFunctions} {env : Env} {s : CUTXOSet} {p p' : PlainSet}

lemma empty (H : HashFunctions) : Represents H emptySet .empty where
  consistent := emptySet_coherent.consistent
  entries := by
    rfl
  slots := fun _ => ⟨rfl, rfl⟩
  recorded := by simp [PlainSet.empty]
  unrecorded := fun _ _ => rfl

section

variable (represents : Represents H s p)

include represents

lemma answers (env : Env) (outpoint : COutPoint) : (s.getUTXO env outpoint).1 = p.entries outpoint := by
  have read : s.view env = s.held := represents.consistent.view_eq
  rw [← represents.entries, ← read]
  rfl

lemma slot_absent (hash : Uint256) : p.entries (undoSlot hash) = none := by
  rw [← represents.entries, held_of_unpending (represents.slots hash), stored, serializeOutPoint_undoSlot]
  cases kept : p.records hash with
  | none => rw [represents.unrecorded hash kept]; rfl
  | some spent =>
    obtain ⟨found, good⟩ := represents.recorded hash spent kept
    rw [found]
    exact good.unreadable

/-- A set with the same undo records represents whatever map has its entries and the same records. -/
lemma of_records {s' : CUTXOSet} (consistent : s'.Consistent) (entries : s'.held = p'.entries)
    (slots : ∀ hash, s'.Unpending (undoSlot hash)) (same : p'.records = p.records)
    (records : ∀ hash, s'.db.lookup (undoKey hash) = s.db.lookup (undoKey hash)) : Represents H s' p' := by
  refine ⟨consistent, entries, slots, ?_, ?_⟩ <;> simp only [same, records]
  · exact represents.recorded
  · exact represents.unrecorded

lemma of_keeps {s' : CUTXOSet} (consistent : s'.Consistent) (keeps : s.Keeps s') : Represents H s' p := by
  refine represents.of_records consistent ?_ (fun hash => ?_) rfl fun hash => by rw [keeps.db]
  · rw [← represents.entries]
    funext outpoint
    simp only [held, stored, keeps.additions, keeps.deletions, keeps.db]
  · rw [CUTXOSet.Unpending, keeps.additions, keeps.deletions]
    exact represents.slots hash

lemma getUTXO (env : Env) (outpoint : COutPoint) : Represents H (s.getUTXO env outpoint).2 p := by
  obtain ⟨consistent, cache, same⟩ := represents.consistent.getUTXO env outpoint
  refine represents.of_keeps consistent ?_
  rw [same]
  exact ⟨rfl, rfl, rfl, rfl⟩

lemma flushed : Represents H s.flushed p := by
  refine represents.of_records represents.consistent.flushed.consistent ?_ (fun _ => ⟨rfl, rfl⟩) rfl
    (lookup_undoKey_flushed represents.slots)
  rw [represents.consistent.flushed.held_eq, represents.consistent.stored_flushed, represents.entries]

lemma addUTXO (env : Env) {outpoint : COutPoint} {out : CTxOut} {height : UInt32}
    {fCoinBase : Bool} (short : (CUTXOEntry.mk out height fCoinBase).Short) (clear : ¬ UndoLike outpoint) :
    Represents H (s.addUTXO env outpoint out height fCoinBase).2 (p.addUTXO outpoint ⟨out, height, fCoinBase⟩) := by
  obtain ⟨consistent, held⟩ := represents.consistent.addUTXO env outpoint short
  have db : (s.addUTXO env outpoint out height fCoinBase).2.db = s.db := by
    simp [CUTXOSet.addUTXO, represents.consistent.isOpen, updateCache]
  refine represents.of_records consistent (by rw [held, represents.entries]; rfl)
    (fun hash => ?_) rfl fun hash => by rw [db]
  have other : undoSlot hash ≠ outpoint := fun same => clear (same ▸ undoLike_undoSlot hash)
  simp only [CUTXOSet.addUTXO, represents.consistent.isOpen, not_true_eq_false, if_false, CUTXOSet.Unpending,
    updateCache, lookup_insert_ne other, lookup_erase_ne other]
  exact represents.slots hash

/-- An outpoint that shares an undo key is not held, so spending it changes nothing. -/
lemma spendUTXO (outpoint : COutPoint) : Represents H (s.spendUTXO outpoint).2 (p.spendUTXO outpoint) := by
  obtain ⟨consistent, held⟩ := represents.consistent.spendUTXO outpoint
  have db : (s.spendUTXO outpoint).2.db = s.db := by
    unfold CUTXOSet.spendUTXO
    repeat' split
    all_goals rfl
  refine represents.of_records consistent (by rw [held, represents.entries]; rfl)
    (fun hash => ?_) rfl fun hash => by rw [db]
  have slot := represents.slots hash
  by_cases here : undoSlot hash = outpoint
  · have absent : s.held outpoint = none := by
      rw [represents.entries, ← here]
      exact represents.slot_absent hash
    have stored : s.stored outpoint = none := by
      rw [← absent, held_of_unpending (here ▸ slot)]
    have cached : s.cache.lookup outpoint = none := by
      cases hit : s.cache.lookup outpoint with
      | none => rfl
      | some entry =>
        rw [represents.consistent.cached outpoint entry hit] at absent
        cases absent
    have missing : (s.cacheAdditions.lookup outpoint).or ((s.cache.lookup outpoint).or (s.stored outpoint)) = none := by
      simp [stored, cached, (here ▸ slot : s.Unpending outpoint).1]
    simpa only [CUTXOSet.spendUTXO, represents.consistent.isOpen, not_true_eq_false, if_false, missing] using slot
  · unfold CUTXOSet.spendUTXO
    repeat' split
    · exact slot
    · exact slot
    · simp only [CUTXOSet.Unpending, lookup_erase_ne here, lookup_insert_ne here]
      exact slot

/-- What holds of a call on the flushed set holds of the call on the set itself. -/
lemma of_echoes {here there : Bool × CUTXOSet} (echoes : Echoes s here there)
    (settled : there.2.Coherent) (after : Represents H there.2 p') : Represents H here.2 p' := by
  cases outcome : here.1 with
  | true =>
    obtain ⟨additions, deletions, lookups⟩ := echoes.done outcome
    have stored : here.2.stored = there.2.stored := by
      funext outpoint
      simp only [stored, lookups]
    have coherent : here.2.Coherent := by
      refine ⟨echoes.isOpen.trans represents.consistent.isOpen, additions, deletions, ?_⟩
      rw [echoes.cache, stored]
      exact settled.cached
    have records : ∀ hash, here.2.db.lookup (undoKey hash) = there.2.db.lookup (undoKey hash) := by
      intro hash
      rw [← serializeOutPoint_undoSlot]
      exact lookups _
    refine after.of_records coherent.consistent ?_ (fun hash => ⟨by simp [additions], by simp [deletions]⟩) rfl records
    rw [coherent.held_eq, stored, ← settled.held_eq, after.entries]
  | false =>
    obtain ⟨keeps, same⟩ := echoes.failed outcome
    have held : here.2.held = s.held := by
      funext outpoint
      simp only [held, stored, keeps.additions, keeps.deletions, keeps.db]
    have unchanged : p'.entries = p.entries := by
      rw [← after.entries, same, ← represents.entries, ← represents.consistent.stored_flushed]
      rfl
    have records : ∀ hash, here.2.db.lookup (undoKey hash) = there.2.db.lookup (undoKey hash) := by
      intro hash
      rw [same, keeps.db]
      exact (lookup_undoKey_flushed represents.slots hash).symm
    refine after.of_records ⟨keeps.isOpen.trans represents.consistent.isOpen, ?_, ?_⟩ ?_ (fun hash => ?_) rfl records
    · rw [keeps.additions]
      exact represents.consistent.short
    · intro outpoint entry hit
      rw [held, represents.entries, ← unchanged, ← after.entries]
      exact after.consistent.cached outpoint entry (echoes.cache ▸ hit)
    · rw [held, represents.entries, unchanged]
    · rw [CUTXOSet.Unpending, keeps.additions, keeps.deletions]
      exact represents.slots hash

end

end Represents

/-- The call finds room in the cache for every outpoint it names, and names none that has a pending
change or shares a key with undo records. -/
structure Roomy (env : Env) (s : CUTXOSet) (names : List COutPoint) : Prop where
  room : names.length ≤ env.maxCacheSize
  unpending : ∀ outpoint ∈ names, s.Unpending outpoint
  clear : ∀ outpoint ∈ names, ¬ UndoLike outpoint

/-- The block consumes no outpoint twice; its record can be read back and is no entry; and if it is
refused, the outputs it created before the missing input were there already. -/
structure SoundBlock (H : HashFunctions) (ledger : UTXOLedger)
    (events : List UTXOEvent) : Prop where
  few : events.length < 2 ^ 32
  once : NoRespend [] events
  unreadable : UndoUnreadable H ledger events
  quiet : spentRecords ledger ledger events = none → ∀ outpoint entry,
    effectAt outpoint ((walkChanges ledger ledger events).map event) = some (some entry) → ledger outpoint = some entry

namespace Represents

variable {env : Env} {s : CUTXOSet} {p : PlainSet} {block : CBlock} {height : UInt32} {blockHash : Uint256}

lemma unnamed_of_clear {events : List UTXOEvent}
    (clear : ∀ event ∈ events, ¬ UndoLike event.key) (hash : Uint256) : effectAt (undoSlot hash) events = none := by
  rw [effectAt_eq_none_iff]
  intro event member same
  exact clear event member (same ▸ undoLike_undoSlot hash)

variable {spent : List SpentRecord}

section

variable (represents : Represents env.hashes s p)

include represents

lemma applied {changes : List Change} {s' : CUTXOSet}
    (stored : s.stored = p.entries) (clear : ∀ event ∈ blockEvents env.hashes height block, ¬ UndoLike event.key)
    (sound : SoundBlock env.hashes p.entries (blockEvents env.hashes height block))
    (applied : Applied env s block height blockHash changes spent s') :
    s'.Coherent ∧ Represents env.hashes s' (p.applyBlock env.hashes block height blockHash) := by
  have unnamed := unnamed_of_clear clear
  have free : SlotFree s.stored (blockEvents env.hashes height block) blockHash :=
    ⟨by rw [stored]; exact represents.slot_absent blockHash, unnamed blockHash⟩
  have coherent := applied.coherent free
  have records := applied.records
  rw [stored] at records
  have unreadable : deserializeUTXOEntry (undoData env.hashes spent) = none := sound.unreadable spent records
  have keys := spentRecords_keys records
  have plain : p.applyBlock env.hashes block height blockHash =
      ⟨run p.entries (blockEvents env.hashes height block), update p.records blockHash (some spent)⟩ := by
    rw [PlainSet.applyBlock, if_neg (by simpa using applied.nonempty), spentRecords_strict sound.once, records]
  refine ⟨coherent, coherent.consistent, ?_, fun hash => ?_, fun hash kept found => ?_, fun hash found => ?_⟩
  · rw [coherent.held_eq, plain]
    funext outpoint
    show s'.stored outpoint = run p.entries (blockEvents env.hashes height block) outpoint
    rw [applied.stored, stored]
    by_cases here : undoSlot blockHash = outpoint
    · rw [if_pos here, unreadable, ← here, run_apply, unnamed, getD_none, represents.slot_absent]
    · rw [if_neg here]
  · exact ⟨by simp [applied.additions], by simp [applied.deletions]⟩
  · replace found : update p.records blockHash (some spent) hash = some kept := by rwa [plain] at found
    by_cases here : hash = blockHash
    · subst here
      have same : spent = kept := by simpa using found
      subst same
      refine ⟨applied.undo, ?_, applied.short, unreadable, fun record member => ?_⟩
      · have count := congrArg length keys
        have bound := length_filterMap_le Event.consumed (blockEvents env.hashes height block)
        have few := sound.few
        rw [length_map] at count
        omega
      · have inKeys : record.1 ∈ (blockEvents env.hashes height block).filterMap Event.consumed :=
          keys ▸ mem_map_of_mem member
        obtain ⟨event, inside, consumed⟩ := mem_filterMap.mp inKeys
        cases event with
        | create key value => cases consumed
        | consume key =>
          cases consumed
          exact clear _ inside
    · rw [update_of_ne here] at found
      rw [applied.others hash here (unnamed hash)]
      exact represents.recorded hash kept found
  · replace found : update p.records blockHash (some spent) hash = none := by rwa [plain] at found
    by_cases here : hash = blockHash
    · subst here
      simp at found
    · rw [update_of_ne here] at found
      rw [applied.others hash here (unnamed hash)]
      exact represents.unrecorded hash found

lemma applyBlock (roomy : Roomy env s ((blockEvents env.hashes height block).map Event.key))
    (sound : SoundBlock env.hashes p.entries (blockEvents env.hashes height block)) (blockHash : Uint256) :
    Represents env.hashes (s.applyBlock env {} block height blockHash).2
      (p.applyBlock env.hashes block height blockHash) := by
  have clear : ∀ event ∈ blockEvents env.hashes height block, ¬ UndoLike event.key :=
    fun event member => roomy.clear event.key (mem_map_of_mem member)
  have unpending : ∀ event ∈ blockEvents env.hashes height block, s.Unpending event.key :=
    fun event member => roomy.unpending event.key (mem_map_of_mem member)
  have room : (blockEvents env.hashes height block).length ≤ env.maxCacheSize := by
    simpa using roomy.room
  have echoes := applyBlock_echoes represents.consistent.isOpen unpending (represents.slots blockHash)
  have settled : s.flushed.Coherent := represents.consistent.flushed
  have before := represents.flushed
  have stored : s.flushed.stored = p.entries := by rw [← settled.held_eq, before.entries]
  rcases applyBlock_outcome blockHash settled room with
    ⟨changes, spent, after, outcome, accepted⟩ | ⟨changes, after, outcome, unwritten, refused⟩
  · rw [outcome] at echoes
    obtain ⟨coherent, done⟩ := before.applied stored clear sound accepted
    exact represents.of_echoes echoes coherent done
  · rw [outcome] at echoes
    have same : p.applyBlock env.hashes block height blockHash = p := by
      rcases refused with ⟨empty, -⟩ | ⟨missing, -⟩
      · rw [PlainSet.applyBlock, if_pos (by simp [empty])]
      · rw [stored] at missing
        simp only [PlainSet.applyBlock, spentRecords_strict sound.once, missing, ite_self]
    have present : ∀ outpoint entry, effectAt outpoint (changes.map event) = some (some entry) →
        s.flushed.stored outpoint = some entry := by
      rcases refused with ⟨-, rfl⟩ | ⟨missing, rfl⟩
      · simp [effectAt]
      · rw [stored] at missing ⊢
        exact sound.quiet missing
    have coherent := unwritten.coherent settled present
    rw [same]
    refine represents.of_echoes echoes coherent (before.of_keeps coherent.consistent ?_)
    exact ⟨unwritten.isOpen.trans settled.isOpen.symm, unwritten.db, unwritten.additions, unwritten.deletions⟩

lemma findUndo_eq (block : CBlock) (blockHash : Uint256) : s.findUndo env block blockHash =
    (p.findUndo env.hashes block blockHash).map fun found => (found.1, undoData env.hashes found.2) := by
  have lookup : ∀ hash, s.db.lookup (undoKey hash) = (p.records hash).map (undoData env.hashes) := by
    intro hash
    cases kept : p.records hash with
    | none => exact represents.unrecorded hash kept
    | some spent => exact (represents.recorded hash spent kept).1
  rw [findUndo, PlainSet.findUndo, lookup]
  cases p.records blockHash with
  | some spent => rfl
  | none =>
    simp only [map_none, lookup]
    split
    · rw [Option.map_map, Option.map_map]
      rfl
    · rfl

lemma good_of_findUndo {storedUnder : Uint256}
    (found : p.findUndo env.hashes block blockHash = some (storedUnder, spent)) : GoodRecord env.hashes spent := by
  have kept : p.records storedUnder = some spent := by
    unfold PlainSet.findUndo at found
    split at found
    · rename_i here recorded
      cases found
      exact recorded
    · dsimp only at found
      split at found
      · obtain ⟨other, recorded, same⟩ := map_eq_some_iff.mp found
        cases same
        exact recorded
      · cases found
  exact (represents.recorded storedUnder spent kept).2

lemma undone {plan : UndoPlan} {staged : Staged}
    (stored : s.stored = p.entries) (stages : Stages s plan.changes staged)
    (short : ShortEvents (plan.changes.map Change.event))
    (clear : ∀ event ∈ plan.changes.map Change.event, ¬ UndoLike event.key) :
    (plan.finish staged).committed.Coherent ∧ Represents env.hashes (plan.finish staged).committed
        ⟨run p.entries (plan.changes.map Change.event),
          plan.storedUnder.elim p.records fun storedUnder => update p.records storedUnder none⟩ := by
  have unnamed := unnamed_of_clear clear
  have additions : (plan.finish staged).set.cacheAdditions = ∅ := stages.additions
  have deletions : (plan.finish staged).set.cacheDeletions = ∅ := stages.deletions
  have free : plan.SlotFree s.stored := fun hash _ =>
    ⟨by rw [stored]; exact represents.slot_absent hash, unnamed hash⟩
  have after : (plan.finish staged).committed.stored = run p.entries (plan.changes.map Change.event) := by
    funext outpoint
    rw [stored_committed additions deletions, stages.stored_planned short free, stored]
  have coherent : (plan.finish staged).committed.Coherent := by
    refine ⟨stages.isOpen, rfl, rfl, fun outpoint entry hit => ?_⟩
    rw [after, ← stored]
    exact stages.cached outpoint entry hit
  have batch : (plan.finish staged).written.db = write (plan.changes.map Change.op ++ plan.last) s.db := by
    simp only [written, UndoPlan.finish, lowered, stages.batch, stages.db]
  have untouched : ∀ hash, plan.storedUnder ≠ some hash →
      (plan.finish staged).committed.db.lookup (undoKey hash) = s.db.lookup (undoKey hash) := by
    intro hash different
    rw [lookup_committed additions deletions (statsKey_ne_undoKey hash).symm, batch, UndoPlan.last]
    cases under : plan.storedUnder with
    | some storedUnder =>
      refine lookup_write_other_undo s.db _ rfl (fun same => different ?_) (unnamed hash)
      rw [under, same]
    | none =>
      rw [append_nil]
      refine lookup_write_of_untouched (fun op member same => ?_) s.db
      obtain ⟨change, inside, rfl⟩ := mem_map.mp member
      rw [Change.op_key, eq_comm, undoKey_eq_serializeOutPoint] at same
      exact clear _ (mem_map_of_mem inside) (same ▸ undoLike_undoSlot hash)
  have deleted : ∀ hash, plan.storedUnder = some hash →
      (plan.finish staged).committed.db.lookup (undoKey hash) = none := by
    intro hash under
    rw [lookup_committed additions deletions (statsKey_ne_undoKey hash).symm, batch, UndoPlan.last, under,
      lookup_write_concat]
    simp [Op.key, Op.effect]
  refine ⟨coherent, coherent.consistent, by rw [coherent.held_eq, after], fun hash => ⟨rfl, rfl⟩,
    fun hash spent found => ?_, fun hash found => ?_⟩
  · cases under : plan.storedUnder with
    | none =>
      rw [under] at found
      rw [untouched hash (by simp [under])]
      exact represents.recorded hash spent found
    | some storedUnder =>
      replace found : update p.records storedUnder none hash = some spent := by rwa [under] at found
      by_cases here : hash = storedUnder
      · subst here
        simp at found
      · rw [update_of_ne here] at found
        rw [untouched hash (by simpa [under] using Ne.symm here)]
        exact represents.recorded hash spent found
  · by_cases here : plan.storedUnder = some hash
    · exact deleted hash here
    · rw [untouched hash here]
      refine represents.unrecorded hash ?_
      cases under : plan.storedUnder with
      | none => rwa [under] at found
      | some storedUnder =>
        replace found : update p.records storedUnder none hash = none := by rwa [under] at found
        rwa [update_of_ne (by rw [under] at here; exact fun same => here (same ▸ rfl))] at found

end

structure Plans (H : HashFunctions) (p : PlainSet) (block : CBlock) (blockHash : Uint256) (plan : UndoPlan) : Prop where
  complete : plan.complete = true
  changes : plan.changes = p.undoChanges H block blockHash
  outcome : p.undoBlock H block blockHash = ⟨run p.entries (plan.changes.map event),
    plan.storedUnder.elim p.records fun storedUnder => Function.update p.records storedUnder none⟩

section

variable (represents : Represents env.hashes s p)

include represents

lemma undoPlan_plans (block : CBlock) (blockHash : Uint256) :
    (undoPlan env s block blockHash = none → p.undoBlock env.hashes block blockHash = p) ∧
      ∀ plan, undoPlan env s block blockHash = some plan → Plans env.hashes p block blockHash plan := by
  dsimp only [undoPlan, PlainSet.undoBlock]
  rw [represents.findUndo_eq]
  by_cases empty : (blockTransactions block).isEmpty = true
  · simp [empty]
  · simp only [if_neg empty]
    cases found : p.findUndo env.hashes block blockHash with
    | none =>
      by_cases spends : (blockTransactions block).tail.any (fun tx => ¬ tx.vin.isEmpty) = true
      · rw [if_pos spends, if_pos spends]
        exact ⟨fun _ => rfl, fun plan planned => by cases planned⟩
      · rw [if_neg spends]
        refine ⟨fun nothing => (by cases nothing), fun plan planned => ?_⟩
        obtain rfl := some.inj planned
        have events := map_event_undo (blockOutputsReversed env.hashes (blockTransactions block)) []
        rw [restorations, map_nil, append_nil] at events
        refine ⟨rfl, ?_, ?_⟩
        · simp [PlainSet.undoChanges, found, restorations]
        · simp only [PlainSet.undoBlock, if_neg empty, found, if_neg spends, events]
          rfl
    | some record =>
      obtain ⟨storedUnder, spent⟩ := record
      have good := represents.good_of_findUndo found
      simp only [map_some]
      rw [if_neg (by simp [verifyUndoChecksum_undoData]), decodeUndo_undoData env.hashes good.short good.few]
      refine ⟨fun nothing => (by cases nothing), fun plan planned => ?_⟩
      obtain rfl := some.inj planned
      have events := map_event_undo (blockOutputsReversed env.hashes (blockTransactions block)) spent
      refine ⟨rfl, ?_, ?_⟩
      · simp [PlainSet.undoChanges, found]
      · simp only [PlainSet.undoBlock, if_neg empty, found, events]
        rfl

/-- An undo on a set with nothing pending: it is refused and changes nothing, or its plan is committed. -/
lemma undoBlock_planned (coherent : s.Coherent)
    (room : (p.undoChanges env.hashes block blockHash).length ≤ env.maxCacheSize)
    (clear : ∀ change ∈ p.undoChanges env.hashes block blockHash, ¬ UndoLike change.event.key) :
    s.undoBlock env {} block blockHash = (false, s) ∧ p.undoBlock env.hashes block blockHash = p ∨
      ∃ plan staged, undoPlan env s block blockHash = some plan ∧ Plans env.hashes p block blockHash plan ∧
        Stages s plan.changes staged ∧ s.undoBlock env {} block blockHash = (true, (plan.finish staged).committed) ∧
        (plan.finish staged).committed.Coherent ∧
        Represents env.hashes (plan.finish staged).committed (p.undoBlock env.hashes block blockHash) := by
  obtain ⟨unplanned, planned⟩ := represents.undoPlan_plans block blockHash
  have fits : ∀ plan, undoPlan env s block blockHash = some plan → plan.changes.length ≤ env.maxCacheSize := by
    intro plan chosen
    rw [(planned plan chosen).changes]
    exact room
  rcases undoBlock_cases {} coherent fits with ⟨nothing, outcome⟩ | ⟨plan, staged, chosen, stages, outcome⟩
  · exact .inl ⟨outcome, unplanned nothing⟩
  · have plans := planned plan chosen
    have named : ∀ event ∈ plan.changes.map Change.event, ¬ UndoLike event.key := by
      intro event member
      obtain ⟨change, inside, rfl⟩ := mem_map.mp member
      exact clear change (plans.changes ▸ inside)
    have stored : s.stored = p.entries := by rw [← coherent.held_eq, represents.entries]
    refine .inr ⟨plan, staged, chosen, plans, stages, ?_, plans.outcome ▸ represents.undone stored stages
      (undoPlan_short chosen) named⟩
    rw [outcome, if_pos plans.complete, commit_eq (show (plan.finish staged).set.isOpen = true from stages.isOpen)]
    rfl

lemma undoBlock (roomy : Roomy env s (p.undoNames env.hashes block blockHash)) :
    Represents env.hashes (s.undoBlock env {} block blockHash).2 (p.undoBlock env.hashes block blockHash) := by
  have outputs : ∀ output ∈ blockOutputsReversed env.hashes (blockTransactions block), s.Unpending output.1 :=
    fun output member => roomy.unpending output.1
      (PlainSet.undoNames_eq .. ▸ mem_append_left _ (mem_map_of_mem member))
  have records : ∀ storedUnder undoValue, s.findUndo env block blockHash = some (storedUnder, undoValue) →
      ∀ record ∈ (decodeUndo undoValue).1, s.Unpending record.1 := by
    intro storedUnder undoValue located record member
    rw [represents.findUndo_eq] at located
    obtain ⟨found, plain, same⟩ := map_eq_some_iff.mp located
    cases same
    have good := represents.good_of_findUndo plain
    rw [decodeUndo_undoData env.hashes good.short good.few] at member
    refine roomy.unpending record.1 ?_
    rw [PlainSet.undoNames_eq, plain]
    exact mem_append_right _ (mem_map_of_mem member)
  have echoes := undoBlock_echoes represents.consistent.isOpen represents.slots outputs records
  have settled : s.flushed.Coherent := represents.consistent.flushed
  have room := roomy.room
  rw [PlainSet.undoNames, length_map] at room
  rcases represents.flushed.undoBlock_planned settled room fun change inside =>
      roomy.clear _ (mem_map_of_mem inside) with
    ⟨outcome, same⟩ | ⟨plan, staged, -, -, -, outcome, coherent, done⟩
  · rw [outcome] at echoes
    rw [same]
    exact represents.of_echoes echoes settled represents.flushed
  · rw [outcome] at echoes
    exact represents.of_echoes echoes coherent done

end

end Represents

inductive UtxoCall where
  | getUTXO (outpoint : COutPoint)
  | addUTXO (outpoint : COutPoint) (out : CTxOut) (height : UInt32) (fCoinBase : Bool)
  | spendUTXO (outpoint : COutPoint)
  | applyBlock (block : CBlock) (height : UInt32) (blockHash : Uint256)
  | undoBlock (block : CBlock) (blockHash : Uint256)
  | flush

namespace UtxoCall

def perform (env : Env) (s : CUTXOSet) : UtxoCall → CUTXOSet
  | getUTXO outpoint => (s.getUTXO env outpoint).2
  | addUTXO outpoint out height fCoinBase => (s.addUTXO env outpoint out height fCoinBase).2
  | spendUTXO outpoint => (s.spendUTXO outpoint).2
  | applyBlock block height blockHash => (s.applyBlock env {} block height blockHash).2
  | undoBlock block blockHash => (s.undoBlock env {} block blockHash).2
  | flush => (s.flush true).2

def plain (H : HashFunctions) (p : PlainSet) : UtxoCall → PlainSet
  | getUTXO _ => p
  | addUTXO outpoint out height fCoinBase => p.addUTXO outpoint ⟨out, height, fCoinBase⟩
  | spendUTXO outpoint => p.spendUTXO outpoint
  | applyBlock block height blockHash => p.applyBlock H block height blockHash
  | undoBlock block blockHash => p.undoBlock H block blockHash
  | flush => p

def Clear (env : Env) (s : CUTXOSet) (p : PlainSet) : UtxoCall → Prop
  | addUTXO outpoint out _ _ => out.scriptPubKey.length < 2 ^ 32 ∧ ¬ UndoLike outpoint
  | applyBlock block height _ =>
    Roomy env s ((blockEvents env.hashes height block).map Event.key) ∧
      SoundBlock env.hashes p.entries (blockEvents env.hashes height block)
  | undoBlock block blockHash => Roomy env s (p.undoNames env.hashes block blockHash)
  | _ => True

/-- Calls made in order on a set and on a plain map, each of them clear of the others. -/
inductive Run (env : Env) (s : CUTXOSet) (p : PlainSet) : List UtxoCall → CUTXOSet → PlainSet → Prop where
  | start : Run env s p [] s p
  | call {calls : List UtxoCall} {now : CUTXOSet} {map : PlainSet} (run : Run env s p calls now map) (next : UtxoCall)
      (clear : next.Clear env now map) :
        Run env s p (calls ++ [next]) (next.perform env now) (next.plain env.hashes map)

lemma represents_perform {env : Env} {s : CUTXOSet} {p : PlainSet} (represents : Represents env.hashes s p)
    (call : UtxoCall) (clear : call.Clear env s p) :
    Represents env.hashes (call.perform env s) (call.plain env.hashes p) := by
  cases call with
  | getUTXO outpoint => exact represents.getUTXO env outpoint
  | addUTXO outpoint out height fCoinBase => exact represents.addUTXO env clear.1 clear.2
  | spendUTXO outpoint => exact represents.spendUTXO outpoint
  | applyBlock block height blockHash => exact represents.applyBlock clear.1 clear.2 blockHash
  | undoBlock block blockHash => exact represents.undoBlock clear
  | flush =>
    rw [perform, flush_eq represents.consistent.isOpen]
    exact represents.flushed

lemma Run.represents {env : Env} {s now : CUTXOSet} {p map : PlainSet} {calls : List UtxoCall}
    (run : Run env s p calls now map) (represents : Represents env.hashes s p) : Represents env.hashes now map := by
  induction run with
  | start => exact represents
  | call earlier next clear ih => exact represents_perform ih next clear

/-- Every answer along a run of calls that keep clear of each other is that of the plain map. -/
theorem getUTXO_eq_plain_of_run {env : Env} {s now : CUTXOSet} {p map : PlainSet} {calls : List UtxoCall}
    (represents : Represents env.hashes s p) (run : Run env s p calls now map) (outpoint : COutPoint) :
    (now.getUTXO env outpoint).1 = map.entries outpoint :=
  (run.represents represents).answers env outpoint

def addFunded : UtxoCall := .addUTXO fundedOutPoint fundedEntry.out fundedEntry.nHeight fundedEntry.fCoinBase

def applyPaying : UtxoCall := .applyBlock payingBlock 2 (.ofNat 7)

def undoPaying : UtxoCall := .undoBlock payingBlock (.ofNat 7)

/-- An output is added and flushed, a block spends it, and the block is undone. -/
theorem getUTXO_eq_plain_paying :
    ∃ now map, Run chainEnv emptySet .empty [addFunded, flush, applyPaying, undoPaying] now map ∧
      (now.getUTXO chainEnv fundedOutPoint).1 = some fundedEntry ∧
      ∀ outpoint, (now.getUTXO chainEnv outpoint).1 = map.entries outpoint := by
  have added : Run chainEnv emptySet .empty [addFunded] _ _ :=
    Run.start.call addFunded ⟨by decide, by decide +kernel⟩
  have stored : Run chainEnv emptySet .empty [addFunded, flush] _ _ := added.call flush trivial
  have spent : spentRecords (flush.plain chainEnv.hashes (addFunded.plain chainEnv.hashes .empty)).entries
      (flush.plain chainEnv.hashes (addFunded.plain chainEnv.hashes .empty)).entries
      (blockEvents chainEnv.hashes 2 payingBlock) = some [(fundedOutPoint, fundedEntry)] := by decide +kernel
  have clear : applyPaying.Clear chainEnv (flush.perform chainEnv (addFunded.perform chainEnv emptySet))
      (flush.plain chainEnv.hashes (addFunded.plain chainEnv.hashes .empty)) := by
    refine ⟨⟨by decide +kernel, by decide +kernel, by decide +kernel⟩,
      by decide +kernel, by decide +kernel, fun records found => ?_, fun missing => ?_⟩
    · rw [spent] at found
      cases found
      decide
    · rw [spent] at missing
      cases missing
  have applied : Run chainEnv emptySet .empty [addFunded, flush, applyPaying] _ _ := stored.call applyPaying clear
  have undone : Run chainEnv emptySet .empty [addFunded, flush, applyPaying, undoPaying] _ _ :=
    applied.call undoPaying ⟨by decide +kernel, by decide +kernel, by decide +kernel⟩
  exact ⟨_, _, undone, by decide +kernel, getUTXO_eq_plain_of_run (.empty chainEnv.hashes) undone⟩

/-- An output is added and spent by a block before the addition was flushed; the flush at the end of
the block writes it again. -/
theorem spent_addition_comes_back :
    (applyPaying.plain chainEnv.hashes (addFunded.plain chainEnv.hashes .empty)).entries fundedOutPoint = none ∧
    ((applyPaying.perform chainEnv (addFunded.perform chainEnv emptySet)).getUTXO chainEnv fundedOutPoint).1 =
      some fundedEntry := by
  decide +kernel

end UtxoCall

end Dilithion
