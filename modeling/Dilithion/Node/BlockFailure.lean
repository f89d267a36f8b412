import Dilithion.Node.UtxoUndo

/-! Failed calls. A block that is refused, or an undo that fails, has changed the cache and the counters transaction by
transaction before it returns, while the batch is written only at the end. What it leaves behind is read off the
block and the set. -/

namespace Dilithion

open Lib Lib.WriteBatch Lib.Ledger Lib.Counter Change CUTXOSet Staged List Option

structure Unchanged (env : Env) (s s' : CUTXOSet) : Prop where
  answers : ∀ asked outpoint, (s'.afterLookups env asked).view env outpoint = s.view env outpoint
  nUTXOs : s'.stats.nUTXOs = s.stats.nUTXOs
  nTotalAmount : s'.stats.nTotalAmount = s.stats.nTotalAmount

lemma Unchanged.refl {env : Env} {s : CUTXOSet} (coherent : s.Coherent) : Unchanged env s s :=
  ⟨fun asked outpoint => by rw [coherent.view_afterLookups], rfl, rfl⟩

/-- The counters cover what is taken from them, and do not wrap. -/
structure CountersTrack (stats : CUTXOStats) (changes : List Change) : Prop where
  units : (changes.filterMap removed).length ≤ stats.nUTXOs.toNat
  amounts : valueSum (changes.filterMap removed) ≤ stats.nTotalAmount.toNat
  unitsFit : stats.nUTXOs.toNat + (changes.filterMap added).length < 2 ^ 64
  amountsFit : stats.nTotalAmount.toNat + valueSum (changes.filterMap added) < 2 ^ 64

/-- As many outputs are created as consumed, of the same total value. -/
structure Balanced (changes : List Change) : Prop where
  units : (changes.filterMap added).length = (changes.filterMap removed).length
  amounts : valueSum (changes.filterMap added) = valueSum (changes.filterMap removed)

/-- Every output that is created and not consumed again was there before, as the same entry. Removals are not
mentioned: until the batch is written they do not show. -/
structure Quiet (ledger : UTXOLedger) (changes : List Change) : Prop where
  present : ∀ outpoint entry, effectAt outpoint (changes.map event) = some (some entry) → ledger outpoint = some entry
  balanced : Balanced changes

/-- And what is consumed in the end was not there before. -/
structure Idle (ledger : UTXOLedger) (changes : List Change) : Prop extends Quiet ledger changes where
  absent : ∀ outpoint, effectAt outpoint (changes.map event) = some none → ledger outpoint = none

lemma CountersTrack.balanced_iff {stats : CUTXOStats} {changes : List Change} (track : CountersTrack stats changes) :
    (tally stats.nUTXOs (changes.map unitDelta) = stats.nUTXOs ∧
      tally stats.nTotalAmount (changes.map valueDelta) = stats.nTotalAmount) ↔ Balanced changes := by
  obtain ⟨units, unitsTaken, values, valuesTaken⟩ := sums changes
  have exactUnits := tally_exact (unitsTaken ▸ track.units) (units ▸ track.unitsFit)
  have exactValues := tally_exact (valuesTaken ▸ track.amounts) (values ▸ track.amountsFit)
  rw [units, unitsTaken] at exactUnits
  rw [values, valuesTaken] at exactValues
  rw [← UInt64.toNat_inj, ← UInt64.toNat_inj]
  exact ⟨fun back => ⟨by omega, by omega⟩,
    fun balanced => ⟨by have := balanced.units; omega, by have := balanced.amounts; omega⟩⟩

lemma idle_iff {ledger : UTXOLedger} {changes : List Change} :
    Idle ledger changes ↔ (∀ outpoint, run ledger (changes.map event) outpoint = ledger outpoint) ∧
    Balanced changes := by
  constructor
  · rintro ⟨⟨present, balanced⟩, absent⟩
    refine ⟨fun outpoint => ?_, balanced⟩
    rw [run_apply]
    rcases effect : effectAt outpoint (changes.map event) with _ | _ | entry
    · rfl
    · exact (absent outpoint effect).symm
    · exact (present outpoint entry effect).symm
  · rintro ⟨kept, balanced⟩
    have before {outpoint : COutPoint} {after : Option CUTXOEntry}
        (effect : effectAt outpoint (changes.map event) = some after) : ledger outpoint = after := by
      rw [← kept, run_apply, effect, getD_some]
    exact ⟨⟨fun _ _ => before, balanced⟩, fun _ => before⟩

lemma Quiet.nil (ledger : UTXOLedger) : Quiet ledger [] :=
  ⟨by simp [effectAt], rfl, rfl⟩

section

variable {env : Env} {s set : CUTXOSet} {changes : List Change} {staged : Staged}

/-- A set with the staged cache and counters over the old database answers by the staged creations
first: a staged removal reads through. -/
structure Unwritten (s : CUTXOSet) (changes : List Change) (set : CUTXOSet) : Prop where
  isOpen : set.isOpen = true
  additions : set.cacheAdditions = ∅
  deletions : set.cacheDeletions = ∅
  db : set.db = s.db
  units : set.stats.nUTXOs = tally s.stats.nUTXOs (changes.map unitDelta)
  amounts : set.stats.nTotalAmount = tally s.stats.nTotalAmount (changes.map valueDelta)
  origin : ∀ outpoint entry, set.cache.lookup outpoint = some entry →
    effectAt outpoint (changes.map event) = some (some entry) ∨
      effectAt outpoint (changes.map event) = none ∧ s.cache.lookup outpoint = some entry
  retained : ∀ outpoint entry, effectAt outpoint (changes.map event) = some (some entry) →
    set.cache.lookup outpoint = some entry

lemma Stages.unwritten (stages : Stages s changes staged) : Unwritten s changes staged.set where
  isOpen := stages.isOpen
  additions := stages.additions
  deletions := stages.deletions
  db := stages.db
  units := by rw [stages.stats, count_nUTXOs]
  amounts := by rw [stages.stats, count_nTotalAmount]
  origin := stages.origin
  retained := fun _ _ effect => stages.retained.lookup effect

lemma Unwritten.withHeight (unwritten : Unwritten s changes set) (nHeight : UInt32) :
    Unwritten s changes { set with stats := { set.stats with nHeight } } where
  isOpen := unwritten.isOpen
  additions := unwritten.additions
  deletions := unwritten.deletions
  db := unwritten.db
  units := unwritten.units
  amounts := unwritten.amounts
  origin := unwritten.origin
  retained := unwritten.retained

lemma Unwritten.stored_eq (unwritten : Unwritten s changes set) : set.stored = s.stored := by
  rw [CUTXOSet.stored_eq, unwritten.db, ← CUTXOSet.stored_eq]

lemma Unwritten.coherent (coherent : s.Coherent) (unwritten : Unwritten s changes set)
    (present : ∀ outpoint entry, effectAt outpoint (changes.map event) = some (some entry) →
      s.stored outpoint = some entry) : set.Coherent := by
  refine ⟨unwritten.isOpen, unwritten.additions, unwritten.deletions, fun outpoint entry hit => ?_⟩
  rw [unwritten.stored_eq]
  rcases unwritten.origin outpoint entry hit with put | ⟨-, before⟩
  · exact present outpoint entry put
  · exact coherent.cached outpoint entry before

lemma Unwritten.unchanged_iff (coherent : s.Coherent) (unwritten : Unwritten s changes set)
    (track : CountersTrack s.stats changes) : Unchanged env s set ↔ Quiet s.stored changes := by
  constructor
  · intro unchanged
    refine ⟨fun outpoint entry effect => ?_, track.balanced_iff.mp ⟨unwritten.units.symm.trans unchanged.nUTXOs,
      unwritten.amounts.symm.trans unchanged.nTotalAmount⟩⟩
    have answer : set.view env outpoint = s.view env outpoint := unchanged.answers [] outpoint
    rw [coherent.view_eq, view, getUTXO_of_settled unwritten.isOpen unwritten.additions unwritten.deletions,
      unwritten.retained outpoint entry effect] at answer
    exact answer.symm
  · intro quiet
    have settled := unwritten.coherent coherent quiet.present
    obtain ⟨units, amounts⟩ := track.balanced_iff.mpr quiet.balanced
    refine ⟨fun asked outpoint => ?_, unwritten.units.trans units, unwritten.amounts.trans amounts⟩
    rw [settled.view_afterLookups, settled.view_eq, coherent.view_eq, unwritten.stored_eq]

/-- Once the batch is written every answer is that of the changed ledger, and a coherent set keeps it. -/
lemma unchanged_iff_of_written (coherent : s.Coherent) (settled : set.Coherent) (track : CountersTrack s.stats changes)
    (units : set.stats.nUTXOs = tally s.stats.nUTXOs (changes.map unitDelta))
    (amounts : set.stats.nTotalAmount = tally s.stats.nTotalAmount (changes.map valueDelta)) :
    Unchanged env s set ↔ (∀ outpoint, set.stored outpoint = s.stored outpoint) ∧ Balanced changes := by
  rw [← track.balanced_iff, ← units, ← amounts]
  constructor
  · intro unchanged
    refine ⟨fun outpoint => ?_, unchanged.nUTXOs, unchanged.nTotalAmount⟩
    have answer : set.view env outpoint = s.view env outpoint := unchanged.answers [] outpoint
    rwa [coherent.view_eq, settled.view_eq] at answer
  · rintro ⟨same, unitsBack, amountsBack⟩
    refine ⟨fun asked outpoint => ?_, unitsBack, amountsBack⟩
    rw [settled.view_afterLookups, settled.view_eq, coherent.view_eq, same]

end

/-- What the block did before it was refused leaves no trace. The whole walk is in the database when
only the last flush failed; otherwise nothing is. -/
def ApplyLeavesNoTrace (env : Env) (writes : CUTXOSet.Writes) (s : CUTXOSet) (block : CBlock) (height : UInt32) :
    Prop :=
  let ledger := s.view env
  let events := blockEvents env.hashes height block
  let changes := walkChanges ledger ledger events
  if writes.batch = true ∧ blockTransactions block ≠ [] ∧ changes.map event = events then
    Idle ledger changes ∧ UndoUnreadable env.hashes ledger events
  else Quiet ledger changes

section

variable {env : Env} {s s' : CUTXOSet} {block : CBlock} {height : UInt32} {blockHash : Uint256}
  {changes : List Change} {writes : CUTXOSet.Writes}

lemma Staged.written_coherent {staged : Staged} (additions : staged.set.cacheAdditions = ∅)
    (deletions : staged.set.cacheDeletions = ∅) (coherent : staged.committed.Coherent) : staged.written.Coherent where
  isOpen := coherent.isOpen
  additions := additions
  deletions := deletions
  cached := by
    intro outpoint entry hit
    rw [← stored_committed additions deletions]
    exact coherent.cached outpoint entry hit

lemma Stops.incomplete {set : CUTXOSet} (stops : Stops s (blockEvents env.hashes height block) changes set) :
    changes.map event ≠ blockEvents env.hashes height block := by
  obtain ⟨outpoint, rest, split, -⟩ := stops.missing
  intro same
  have lengths := congrArg length (same.trans split)
  simp at lengths

/-- The walk ran to its end and the batch was written, but the counters were not flushed. -/
lemma Applies.unflushed_unchanged_iff {applying : Applying} (coherent : s.Coherent)
    (nonempty : blockTransactions block ≠ [])
    (applies : Applies s (blockEvents env.hashes height block) changes applying)
    (free : SlotFree s.stored (blockEvents env.hashes height block) blockHash) (track : CountersTrack s.stats changes) :
    Unchanged env s (applying.finish env height blockHash).written ↔
      Idle s.stored changes ∧ UndoUnreadable env.hashes s.stored (blockEvents env.hashes height block) := by
  have applied : Applied env s block height blockHash changes applying.spent
      (applying.finish env height blockHash).committed := applies.committed nonempty
  have additions : (applying.finish env height blockHash).set.cacheAdditions = ∅ := applies.stages.additions
  have deletions : (applying.finish env height blockHash).set.cacheDeletions = ∅ := applies.stages.deletions
  have settled := written_coherent additions deletions (applied.coherent free)
  have stored : ∀ outpoint, (applying.finish env height blockHash).written.stored outpoint =
      if undoSlot blockHash = outpoint then deserializeUTXOEntry (undoData env.hashes applying.spent)
      else run s.stored (blockEvents env.hashes height block) outpoint := by
    intro outpoint
    rw [← stored_committed additions deletions, applied.stored]
  have slotRun : run s.stored (blockEvents env.hashes height block) (undoSlot blockHash) =
      s.stored (undoSlot blockHash) := by
    rw [run_apply, free.unnamed, getD_none]
  rw [idle_iff, unchanged_iff_of_written coherent settled track
    (show applying.staged.set.stats.nUTXOs = _ by rw [applies.stages.stats, count_nUTXOs])
    (show applying.staged.set.stats.nTotalAmount = _ by rw [applies.stages.stats, count_nTotalAmount])]
  constructor
  · rintro ⟨same, balanced⟩
    refine ⟨⟨fun outpoint => ?_, balanced⟩, fun spent records => ?_⟩
    · rw [applies.walked]
      by_cases slot : undoSlot blockHash = outpoint
      · rw [← slot, slotRun]
      · rw [← same outpoint, stored, if_neg slot]
    · have atSlot := same (undoSlot blockHash)
      rw [stored, if_pos rfl, free.absent] at atSlot
      rwa [← some.inj (applies.records.symm.trans records)]
  · rintro ⟨⟨kept, balanced⟩, unreadable⟩
    refine ⟨fun outpoint => ?_, balanced⟩
    rw [stored]
    by_cases slot : undoSlot blockHash = outpoint
    · rw [if_pos slot, unreadable _ applies.records, ← slot, free.absent]
    · rw [if_neg slot, ← applies.walked, kept]

lemma applyBlock_refused_unchanged_iff (coherent : s.Coherent)
    (room : (blockEvents env.hashes height block).length ≤ env.maxCacheSize)
    (free : SlotFree (s.view env) (blockEvents env.hashes height block) blockHash)
    (track : CountersTrack s.stats (walkChanges (s.view env) (s.view env) (blockEvents env.hashes height block)))
    (refused : s.applyBlock env writes block height blockHash = (false, s')) :
    Unchanged env s s' ↔ ApplyLeavesNoTrace env writes s block height := by
  dsimp only [ApplyLeavesNoTrace]
  rw [coherent.view_eq] at free track ⊢
  rcases applyBlock_cases writes blockHash coherent room with
    ⟨empty, outcome⟩ | ⟨changes, set, stops, outcome⟩ | ⟨changes, applying, nonempty, applies, outcome⟩
  · have same : s = s' := congrArg Prod.snd (outcome.symm.trans refused)
    subst same
    have nothing : blockEvents env.hashes height block = [] := by simp [blockEvents, empty, transactionsEvents]
    rw [if_neg (fun all => all.2.1 empty), nothing]
    exact iff_of_true (.refl coherent) (.nil _)
  · have same : set = s' := congrArg Prod.snd (outcome.symm.trans refused)
    subst same
    rw [stops.walk] at track
    rw [stops.walk, if_neg (fun all => stops.incomplete all.2.2)]
    obtain ⟨applying, applies, rfl⟩ := stops.applies
    exact applies.stages.unwritten.unchanged_iff coherent track
  · have isOpen : (applying.finish env height blockHash).set.isOpen = true := applies.stages.isOpen
    rw [outcome, commit_eq isOpen] at refused
    rw [applies.walk] at track ⊢
    cases batch : writes.batch with
    | false =>
      have same : (applying.finish env height blockHash).set = s' := by simpa [batch] using refused
      subst same
      exact (applies.stages.unwritten.withHeight height).unchanged_iff coherent track
    | true =>
      have same : (applying.finish env height blockHash).written = s' := by
        cases flush : writes.flush <;> simp [batch, flush] at refused
        exact refused
      subst same
      rw [if_pos ⟨rfl, nonempty, applies.walked⟩]
      exact applies.unflushed_unchanged_iff coherent nonempty free track

end

/-- What `UndoBlock` stages: the changes, whether the record holds as many entries as it counts, and
the hash the record is stored under. -/
structure UndoPlan where
  changes : List Change
  complete : Bool
  storedUnder : Option Uint256

/-- Nothing is staged for a block that does not decode, a record that does not verify, or a missing
record of a block that spends. -/
def undoPlan (env : Env) (s : CUTXOSet) (block : CBlock) (blockHash : Uint256) : Option UndoPlan :=
  let outputs := blockOutputsReversed env.hashes (blockTransactions block)
  if (blockTransactions block).isEmpty then none
  else match s.findUndo env block blockHash with
    | none =>
      if (blockTransactions block).tail.any (fun tx => ¬ tx.vin.isEmpty) then none
      else some ⟨removals outputs, true, none⟩
    | some (storedUnder, undoValue) =>
      if verifyUndoChecksum env.hashes undoValue ≠ .valid then none
      else some ⟨removals outputs ++ restorations (decodeUndo undoValue).1, (decodeUndo undoValue).2, some storedUnder⟩

namespace UndoPlan

def last (plan : UndoPlan) : List (Op Bytes Bytes) :=
  match plan.storedUnder with
  | none => []
  | some blockHash => [.delete (undoKey blockHash)]

def finish (plan : UndoPlan) (staged : Staged) : Staged :=
  lowered { staged with batch := staged.batch ++ plan.last }

def SlotFree (plan : UndoPlan) (ledger : UTXOLedger) : Prop :=
  ∀ blockHash, plan.storedUnder = some blockHash → Dilithion.SlotFree ledger (plan.changes.map event) blockHash

end UndoPlan

lemma short_of_readRecords (count : Nat) (data : Bytes) : ∀ record ∈ (readRecords count data).1, record.2.Short := by
  induction count generalizing data with
  | zero => simp [readRecords]
  | succ count ih =>
    cases read : deserializeUndoEntry.run data with
    | error text => simp [readRecords, read]
    | ok result =>
      obtain ⟨record, rest⟩ := result
      have here : record.2.Short := deserializeUndoEntry_yields data record rest read
      simp only [readRecords, read, mem_cons]
      rintro other (rfl | later)
      · exact here
      · exact ih rest other later

section

variable {env : Env} {s s' : CUTXOSet} {block : CBlock} {height : UInt32} {blockHash : Uint256}
  {writes : CUTXOSet.Writes} {plan : UndoPlan}

lemma undoPlan_short (planned : undoPlan env s block blockHash = some plan) :
    ShortEvents (plan.changes.map event) := by
  unfold undoPlan at planned
  repeat' split at planned
  · cases planned
  · cases planned
  · obtain rfl := some.inj planned
    have short : ShortEvents (undoEvents
        ((blockOutputsReversed env.hashes (blockTransactions block)).map Prod.fst) []) :=
      shortEvents_undo (by simp) _
    rwa [← map_event_undo, restorations, map_nil, append_nil] at short
  · cases planned
  · obtain rfl := some.inj planned
    rw [map_event_undo]
    exact shortEvents_undo (short_of_readRecords _ _) _

/-- Everything a call of `UndoBlock` on a coherent set can do. -/
lemma undoBlock_cases (writes : CUTXOSet.Writes) (coherent : s.Coherent)
    (room : ∀ plan, undoPlan env s block blockHash = some plan → plan.changes.length ≤ env.maxCacheSize) :
    (undoPlan env s block blockHash = none ∧ s.undoBlock env writes block blockHash = (false, s)) ∨
    ∃ plan staged, undoPlan env s block blockHash = some plan ∧ Stages s plan.changes staged ∧
      s.undoBlock env writes block blockHash =
        if plan.complete then (plan.finish staged).commit writes else (false, staged.set) := by
  have removed := coherent.stages.removeOutputs (blockOutputsReversed env.hashes (blockTransactions block))
  simp only [undoBlock, coherent.isOpen, not_true_eq_false, if_false]
  dsimp only [undoPlan] at room ⊢
  by_cases empty : blockTransactions block = []
  · cases s.findUndo env block blockHash with
    | none => simp [undoWithoutRecord, empty]
    | some found => simp [undoWithRecord, empty]
  · have nonempty : ¬ (blockTransactions block).isEmpty = true := by simpa using empty
    rw [if_neg nonempty] at room ⊢
    cases found : s.findUndo env block blockHash with
    | none =>
      rw [undoWithoutRecord, if_neg nonempty]
      by_cases spends : (blockTransactions block).tail.any (fun tx => ¬ tx.vin.isEmpty) = true
      · exact .inl ⟨by rw [if_pos spends], by rw [if_pos spends]⟩
      · rw [if_neg spends, if_neg spends]
        refine .inr ⟨_, _, rfl, removed, ?_⟩
        simp [UndoPlan.finish, UndoPlan.last]
    | some record =>
      obtain ⟨storedUnder, undoValue⟩ := record
      simp only [found] at room ⊢
      by_cases valid : verifyUndoChecksum env.hashes undoValue = .valid
      · rw [if_neg (by simpa using valid)] at room ⊢
        refine .inr ⟨_, undoStaged env s block (decodeUndo undoValue).1, rfl, ?_, ?_⟩
        · have fits := room _ rfl
          simp only [length_append, removals, restorations, length_map] at fits
          exact coherent.undoStages _ fits
        · rw [undoWithRecord_eq valid empty]
          rfl
      · exact .inl ⟨by rw [if_pos valid], by rw [undoWithRecord, if_pos valid]⟩

variable {staged : Staged}

section

variable (stages : Stages s plan.changes staged) (short : ShortEvents (plan.changes.map event))
  (free : plan.SlotFree s.stored)

include stages short free

lemma Stages.stored_planned (outpoint : COutPoint) :
    (plan.finish staged).written.stored outpoint = run s.stored (plan.changes.map event) outpoint := by
  have batch : (plan.finish staged).written.db = write (plan.changes.map op ++ plan.last) s.db := by
    simp only [written, UndoPlan.finish, lowered, stages.batch, stages.db]
  rw [stored_eq, batch, UndoPlan.last]
  cases under : plan.storedUnder with
  | none =>
    simp only [append_nil, storedIn_write short]
    rfl
  | some blockHash =>
    have slot := free blockHash under
    simp only [storedIn_write_undo short s.db (.delete (undoKey blockHash)) rfl]
    by_cases here : undoSlot blockHash = outpoint
    · rw [if_pos here, ← here, run_apply, slot.unnamed, slot.absent]
      rfl
    · rw [if_neg here]
      rfl

lemma Stages.unflushed_undo_unchanged_iff (track : CountersTrack s.stats plan.changes) :
    Unchanged env s (plan.finish staged).written ↔ Idle s.stored plan.changes := by
  have stored := stages.stored_planned short free
  have settled : (plan.finish staged).written.Coherent := by
    refine ⟨stages.isOpen, stages.additions, stages.deletions, fun outpoint entry hit => ?_⟩
    rw [stored]
    exact stages.cached outpoint entry hit
  rw [idle_iff, unchanged_iff_of_written stages.coherent settled track
    (show staged.set.stats.nUTXOs = _ by rw [stages.stats, count_nUTXOs])
    (show staged.set.stats.nTotalAmount = _ by rw [stages.stats, count_nTotalAmount])]
  simp only [stored]

end

def UndoLeavesNoTrace (env : Env) (writes : CUTXOSet.Writes) (s : CUTXOSet) (block : CBlock) (blockHash : Uint256) :
    Prop :=
  match undoPlan env s block blockHash with
  | none => True
  | some plan =>
    if plan.complete = true ∧ writes.batch = true then Idle (s.view env) plan.changes
    else Quiet (s.view env) plan.changes

lemma undoBlock_failed_unchanged_iff (coherent : s.Coherent)
    (room : ∀ plan, undoPlan env s block blockHash = some plan → plan.changes.length ≤ env.maxCacheSize)
    (free : ∀ plan, undoPlan env s block blockHash = some plan → plan.SlotFree (s.view env))
    (track : ∀ plan, undoPlan env s block blockHash = some plan → CountersTrack s.stats plan.changes)
    (failed : s.undoBlock env writes block blockHash = (false, s')) :
    Unchanged env s s' ↔ UndoLeavesNoTrace env writes s block blockHash := by
  dsimp only [UndoLeavesNoTrace]
  rw [coherent.view_eq] at free ⊢
  rcases undoBlock_cases writes coherent room with ⟨nothing, outcome⟩ | ⟨plan, staged, planned, stages, outcome⟩
  · have same : s = s' := congrArg Prod.snd (outcome.symm.trans failed)
    subst same
    rw [nothing]
    exact iff_of_true (.refl coherent) trivial
  · simp only [planned]
    rw [outcome] at failed
    cases complete : plan.complete with
    | false =>
      have same : staged.set = s' := by simpa [complete] using failed
      subst same
      exact stages.unwritten.unchanged_iff coherent (track plan planned)
    | true =>
      have isOpen : (plan.finish staged).set.isOpen = true := stages.isOpen
      rw [complete, commit_eq isOpen] at failed
      cases batch : writes.batch with
      | false =>
        have same : (plan.finish staged).set = s' := by simpa [batch] using failed
        subst same
        exact (stages.unwritten.withHeight _).unchanged_iff coherent (track plan planned)
      | true =>
        have same : (plan.finish staged).written = s' := by
          cases flush : writes.flush <;> simp [batch, flush] at failed
          exact failed
        subst same
        exact stages.unflushed_undo_unchanged_iff (undoPlan_short planned) (free plan planned) (track plan planned)

end

def missingTx : CTransaction := ⟨1, [⟨⟨.ofNat 0xdead, 0⟩, [], 0xFFFFFFFF⟩], [⟨1000000, [0x51]⟩], 0⟩

def missingBlock : CBlock := blockOf .null [rewardTx, missingTx]

def rewardOutPoint : COutPoint := ⟨.ofNat 0xa951c761ccf84b3da96d92fda7ade8f149a3a24abd4c1774705bd3f56280df33, 0⟩

end Dilithion
