import Dilithion.Node.BlockFailure

/-! Two sets that answer alike and hold the same undo records. Applying a block to both keeps them so, and
undoing a block on one gives a set that agrees with the other as it was before the block, provided that
the block is well placed: it fits the cache, spends what was there before it, creates what was not, and
stays clear of the undo records. -/

namespace Dilithion

open Lib Lib.WriteBatch Lib.Ledger List Option

/-- `set` is coherent, answers as `other`, and holds the same undo records of the listed blocks. -/
structure Mirrors (hashes : List Uint256) (set other : CUTXOSet) : Prop where
  coherent : set.Coherent
  stored : set.stored = other.stored
  records : ∀ hash ∈ hashes, set.db.lookup (undoKey hash) = other.db.lookup (undoKey hash)

lemma Mirrors.refl {set : CUTXOSet} (coherent : set.Coherent) (hashes : List Uint256) : Mirrors hashes set set :=
  ⟨coherent, rfl, fun _ _ => rfl⟩

lemma Mirrors.getUTXO {hashes : List Uint256} {set other : CUTXOSet} (mirrors : Mirrors hashes set other) (env : Env)
    (outpoint : COutPoint) : Mirrors hashes (set.getUTXO env outpoint).2 other := by
  obtain ⟨coherent, stored⟩ := mirrors.coherent.getUTXO env outpoint
  refine ⟨coherent, stored.trans mirrors.stored, fun hash member => ?_⟩
  rw [CUTXOSet.getUTXO_db, mirrors.records hash member]

/-- The block can be applied to a set with this ledger and taken back, next to the undo records of `others`. -/
structure WellPlaced (env : Env) (ledger : UTXOLedger) (others : List Uint256) (block : CBlock)
    (height : UInt32) (blockHash : Uint256) : Prop where
  room : (blockEvents env.hashes height block).length ≤ env.maxCacheSize
  few : (blockEvents env.hashes height block).length < 2 ^ 32
  new : blockHash ∉ others
  free : SlotFree ledger (blockEvents env.hashes height block) blockHash
  apart : ∀ other ∈ others, effectAt (undoSlot other) (blockEvents env.hashes height block) = none
  unreadable : UndoUnreadable env.hashes ledger (blockEvents env.hashes height block)
  restores : ∀ spent, spentRecords ledger ledger (blockEvents env.hashes height block) = some spent →
    Restores ledger (blockEvents env.hashes height block) spent
  /-- If an input is missing, the outputs created before it were there already. -/
  quiet : spentRecords ledger ledger (blockEvents env.hashes height block) = none → ∀ outpoint entry,
    effectAt outpoint ((walkChanges ledger ledger (blockEvents env.hashes height block)).map Change.event) =
      some (some entry) →
      ledger outpoint = some entry

section

variable {env : Env} {set other set' other' : CUTXOSet} {hashes : List Uint256} {block : CBlock} {height : UInt32}
  {blockHash : Uint256} {changes : List Change} {spent : List SpentRecord}

lemma Stops.no_records {s : CUTXOSet} (stops : Stops s (blockEvents env.hashes height block) changes set) :
    spentRecords s.stored s.stored (blockEvents env.hashes height block) = none := by
  obtain ⟨outpoint, rest, split, missing⟩ := stops.missing
  rw [split, spentRecords_append]
  simp [spentRecords, missing]

/-- With both writes made, a call applies the block or refuses it and leaves the database alone. -/
lemma applyBlock_outcome (blockHash : Uint256) (coherent : set.Coherent)
    (room : (blockEvents env.hashes height block).length ≤ env.maxCacheSize) :
    (∃ changes spent set', set.applyBlock env {} block height blockHash = (true, set') ∧
      Applied env set block height blockHash changes spent set') ∨
    ∃ changes set', set.applyBlock env {} block height blockHash = (false, set') ∧ Unwritten set changes set' ∧
      (blockTransactions block = [] ∧ changes = [] ∨
        spentRecords set.stored set.stored (blockEvents env.hashes height block) = none ∧
          walkChanges set.stored set.stored (blockEvents env.hashes height block) = changes) := by
  rcases applyBlock_cases {} blockHash coherent room with
    ⟨empty, outcome⟩ | ⟨changes, stopped, stops, outcome⟩ | ⟨changes, applying, nonempty, applies, outcome⟩
  · exact .inr ⟨[], set, outcome, coherent.stages.unwritten, .inl ⟨empty, rfl⟩⟩
  · obtain ⟨applying, applies, rfl⟩ := stops.applies
    exact .inr ⟨changes, _, outcome, applies.stages.unwritten, .inr ⟨stops.no_records, stops.walk⟩⟩
  · refine .inl ⟨changes, applying.spent, _, ?_, applies.committed nonempty⟩
    have isOpen : (applying.finish env height blockHash).set.isOpen = true := applies.stages.isOpen
    rw [outcome, Staged.commit_eq isOpen]
    rfl

lemma Mirrors.applyBlock (mirrors : Mirrors hashes set other) (coherent : other.Coherent)
    (placed : WellPlaced env other.stored hashes block height blockHash) :
    (∃ set' other', set.applyBlock env {} block height blockHash = (true, set') ∧
      other.applyBlock env {} block height blockHash = (true, other') ∧ other'.Coherent ∧
      Mirrors (blockHash :: hashes) set' other') ∨
    ∃ set' other', set.applyBlock env {} block height blockHash = (false, set') ∧
      other.applyBlock env {} block height blockHash = (false, other') ∧ Mirrors hashes set' other := by
  have same := mirrors.stored
  rcases applyBlock_outcome blockHash mirrors.coherent placed.room with
    ⟨changes, spent, set', outcome, applied⟩ | ⟨changes, set', outcome, unwritten, why⟩ <;>
  rcases applyBlock_outcome blockHash coherent placed.room with
    ⟨changesOther, spentOther, other', outcomeOther, appliedOther⟩ | ⟨changesOther, other', outcomeOther, -, whyOther⟩
  · have records : spent = spentOther := by
      have found := applied.records
      rw [same, appliedOther.records] at found
      exact (some.inj found).symm
    subst records
    have free : SlotFree set.stored (blockEvents env.hashes height block) blockHash := same ▸ placed.free
    refine .inl ⟨set', other', outcome, outcomeOther, appliedOther.coherent placed.free, applied.coherent free, ?_, ?_⟩
    · funext outpoint
      rw [applied.stored, appliedOther.stored, same]
    · intro hash member
      rcases mem_cons.mp member with rfl | earlier
      · rw [applied.undo, appliedOther.undo]
      · have different : hash ≠ blockHash := fun equal => placed.new (equal ▸ earlier)
        rw [applied.others hash different (placed.apart hash earlier),
          appliedOther.others hash different (placed.apart hash earlier), mirrors.records hash earlier]
  · rcases whyOther with ⟨empty, -⟩ | ⟨missing, -⟩
    · exact absurd empty applied.nonempty
    · have found := applied.records
      rw [same, missing] at found
      cases found
  · rcases why with ⟨empty, -⟩ | ⟨missing, -⟩
    · exact absurd empty appliedOther.nonempty
    · have found := appliedOther.records
      rw [← same, missing] at found
      cases found
  · refine .inr ⟨set', other', outcome, outcomeOther, ?_, ?_, ?_⟩
    · refine unwritten.coherent mirrors.coherent fun outpoint entry effect => ?_
      rw [same]
      rcases why with ⟨-, rfl⟩ | ⟨missing, rfl⟩
      · simp [effectAt] at effect
      · rw [same] at missing effect
        exact placed.quiet missing outpoint entry effect
    · rw [unwritten.stored_eq, same]
    · intro hash member
      rw [unwritten.db, mirrors.records hash member]

/-- Undoing the block on a set that agrees with the result of applying it. -/
lemma Mirrors.undoBlock (mirrors : Mirrors (blockHash :: hashes) set other') (coherent : other.Coherent)
    (placed : WellPlaced env other.stored hashes block height blockHash)
    (accepted : other.applyBlock env {} block height blockHash = (true, other')) :
    ∃ set', set.undoBlock env {} block blockHash = (true, set') ∧ Mirrors hashes set' other := by
  obtain ⟨changes, spent, applied⟩ := applyBlock_applied coherent placed.room accepted
  have length := applied.events_length
  have room := placed.room
  have few := placed.few
  have record : set.db.lookup (undoKey blockHash) = some (undoData env.hashes spent) := by
    rw [mirrors.records blockHash mem_cons_self, applied.undo]
  obtain ⟨set', outcome, undone⟩ : ∃ set', set.undoBlock env {} block blockHash = (true, set') ∧
      Undone set (blockOutputsReversed env.hashes (blockTransactions block)) spent blockHash set' :=
    undoBlock_of_record mirrors.coherent applied.nonempty record applied.short (by omega) (by omega)
  have slot := effectAt_undoEvents_of_unnamed applied.records placed.free.unnamed
  -- the record does not read as an output, so its slot is empty after the block as it was before
  have absent : set.stored (undoSlot blockHash) = none := by
    rw [mirrors.stored, applied.stored, if_pos rfl, placed.unreadable spent applied.records]
  have back : ∀ outpoint, set'.stored outpoint = other.stored outpoint := by
    intro outpoint
    rw [undone.stored]
    by_cases own : undoSlot blockHash = outpoint
    · rw [if_pos own, ← own, placed.free.absent]
    · have restored := (undo_restores_iff (fun key => mem_outputs_iff env.hashes height block key) applied.records).mpr
        (placed.restores spent applied.records) outpoint
      rw [if_neg own, ← restored, run_apply, run_apply, mirrors.stored, applied.stored, if_neg own]
  refine ⟨set', outcome, ⟨undone.isOpen, undone.additions, undone.deletions, ?_⟩, funext back, ?_⟩
  · intro outpoint entry hit
    rw [undone.stored]
    by_cases own : undoSlot blockHash = outpoint
    · rcases undone.origin outpoint entry hit with put | ⟨-, before⟩
      · rw [← own, slot] at put
        cases put
      · have cached := mirrors.coherent.cached outpoint entry before
        rw [← own, absent] at cached
        cases cached
    · rw [if_neg own, run_apply]
      rcases undone.origin outpoint entry hit with put | ⟨untouched, before⟩
      · rw [put, getD_some]
      · rw [untouched, getD_none, mirrors.coherent.cached outpoint entry before]
  · intro hash member
    have different : hash ≠ blockHash := fun equal => placed.new (equal ▸ member)
    rw [undone.others hash different (effectAt_undoEvents_of_unnamed applied.records (placed.apart hash member)),
      mirrors.records hash (mem_cons_of_mem _ member), applied.others hash different (placed.apart hash member)]

/-- An accepted block that is well placed leaves the ledger of its events. -/
lemma WellPlaced.applied (placed : WellPlaced env set.stored hashes block height blockHash) (coherent : set.Coherent)
    (accepted : set.applyBlock env {} block height blockHash = (true, set')) :
    ∃ spent, spentRecords set.stored set.stored (blockEvents env.hashes height block) = some spent ∧
      set'.stored = run set.stored (blockEvents env.hashes height block) := by
  obtain ⟨changes, spent, applied⟩ := applyBlock_applied coherent placed.room accepted
  refine ⟨spent, applied.records, funext fun outpoint => ?_⟩
  rw [applied.stored]
  by_cases own : undoSlot blockHash = outpoint
  · rw [if_pos own, ← own, run_apply, placed.free.unnamed, getD_none, placed.free.absent,
      placed.unreadable spent applied.records]
  · rw [if_neg own]

/-- Well-placedness as a test, for a block that goes through and consumes only what was there before it. -/
def placesWell (env : Env) (ledger : UTXOLedger) (others : List Uint256) (block : CBlock) (height : UInt32)
    (blockHash : Uint256) : Bool :=
  let events := blockEvents env.hashes height block
  (spentRecords ledger ledger events).any fun spent => decide (
    events.length ≤ env.maxCacheSize ∧ events.length < 2 ^ 32 ∧ blockHash ∉ others ∧
    ledger (undoSlot blockHash) = none ∧
    (∀ other ∈ blockHash :: others, effectAt (undoSlot other) events = none) ∧
    deserializeUTXOEntry (undoData env.hashes spent) = none ∧ (∀ record ∈ spent, ledger record.1 = some record.2) ∧
    ∀ item ∈ events.filterMap Event.created, ledger item.1 = none)

lemma wellPlaced_of_test {ledger : UTXOLedger} (test : placesWell env ledger hashes block height blockHash = true) :
    WellPlaced env ledger hashes block height blockHash := by
  obtain ⟨spent, records, holds⟩ := (Option.any_eq_true _ _).mp test
  obtain ⟨room, few, new, absent, apart, unreadable, initial, fresh⟩ := of_decide_eq_true holds
  refine ⟨room, few, new, ⟨absent, apart blockHash mem_cons_self⟩,
    fun other member => apart other (mem_cons_of_mem _ member),
    fun other found => ?_, fun other found => ?_, fun missing => ?_⟩
  · cases records.symm.trans found
    exact unreadable
  · cases records.symm.trans found
    refine ⟨fun key value last => initial _ (mem_of_lastRecord _ last), fun key value created _ => ?_⟩
    exact fresh (key, value) (mem_filterMap_created.mpr created)
  · cases records.symm.trans missing

end

end Dilithion
