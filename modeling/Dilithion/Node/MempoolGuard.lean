import Dilithion.Node.MempoolClosure

/-! The insertion of an entry is guarded: when a statement of it throws, the guard undoes what it has noted. It notes
an outpoint only after that has been inserted, and the pointer of the ordered set only after a message that
allocates, so what throws in between stays behind. -/

namespace Dilithion

open Lib CTxMemPoolEntry List

structure MempoolInsertionGuard where
  mapInserted : Bool := false
  setInserted : Bool := false
  outpointsAdded : List COutPoint := []
  sizeAdded : Nat := 0
  countIncremented : Bool := false
  descendantsUpdated : Bool := false
  committed : Bool := false

/-- The statements of an insertion. A loop is given by the statements of its rounds. -/
inductive InsertionStep where
  | createEntry
  | emplace
  | markMapInserted
  | insertPointer
  | printDebug
  | markSetInserted
  | insertOutpoint (outpoint : COutPoint)
  | addOutpoint (outpoint : COutPoint)
  | addSize
  | incrementCount
  | openDescendants (parent : Uint256)
  | registerChild (parent : Uint256)
  | markDescendantsUpdated
  | commit
deriving DecidableEq

namespace MempoolInsertionGuard

variable (H : HashFunctions) (txid : Uint256) (guard : MempoolInsertionGuard) (pool : CTxMemPool)

-- `~MempoolInsertionGuard` rolls back what was not committed, in reverse order.
def rollback : CTxMemPool :=
  let unregistered := if guard.descendantsUpdated then pool.updateDescendantsRemove txid else pool
  { unregistered with
    mempoolCount :=
      if guard.countIncremented && decide (0 < unregistered.mempoolCount) then unregistered.mempoolCount - 1
      else unregistered.mempoolCount
    mempoolSize := if guard.sizeAdded ≤ unregistered.mempoolSize then unregistered.mempoolSize - guard.sizeAdded else 0
    mapSpentOutpoints := guard.outpointsAdded.foldl Finset.erase unregistered.mapSpentOutpoints
    setEntries := match guard.setInserted, unregistered.mapTx.find txid with
      | true, some entry => OrderedSet.erase (compareTxMemPoolEntryByFeeRate H) entry unregistered.setEntries
      | _, _ => unregistered.setEntries
    mapTx := if guard.mapInserted then unregistered.mapTx.erase txid else unregistered.mapTx }

def destroy : CTxMemPool :=
  if guard.committed then pool else guard.rollback H txid pool

end MempoolInsertionGuard

namespace CTxMemPool

-- `mapDescendants[parent]`, before the child is inserted into the set.
def openDescendants (pool : CTxMemPool) (parent : Uint256) : CTxMemPool :=
  if pool.exists' parent && (pool.mapDescendants.find parent).isNone then
    { pool with mapDescendants := pool.mapDescendants.insert parent ∅ }
  else pool

end CTxMemPool

namespace InsertionStep

variable (H : HashFunctions) (entry : CTxMemPoolEntry)

def run (state : CTxMemPool × MempoolInsertionGuard) : InsertionStep → CTxMemPool × MempoolInsertionGuard
  | .createEntry | .printDebug => state
  | .emplace => ({ state.1 with mapTx := state.1.mapTx.insert (entry.getTxHash H) entry }, state.2)
  | .markMapInserted => (state.1, { state.2 with mapInserted := true })
  | .insertPointer =>
    ({ state.1 with setEntries := OrderedSet.insert (compareTxMemPoolEntryByFeeRate H) entry state.1.setEntries },
      state.2)
  | .markSetInserted => (state.1, { state.2 with setInserted := true })
  | .insertOutpoint outpoint => ({ state.1 with mapSpentOutpoints := insert outpoint state.1.mapSpentOutpoints },
      state.2)
  | .addOutpoint outpoint => (state.1, { state.2 with outpointsAdded := state.2.outpointsAdded ++ [outpoint] })
  | .addSize => ({ state.1 with mempoolSize := state.1.mempoolSize + entry.getTxSize },
      { state.2 with sizeAdded := entry.getTxSize })
  | .incrementCount => ({ state.1 with mempoolCount := state.1.mempoolCount + 1 },
      { state.2 with countIncremented := true })
  | .openDescendants parent => (state.1.openDescendants parent, state.2)
  | .registerChild parent => (CTxMemPool.addChild (entry.getTxHash H) state.1 parent, state.2)
  | .markDescendantsUpdated => (state.1, { state.2 with descendantsUpdated := true })
  | .commit => (state.1, { state.2 with committed := true })

/-- The statements that allocate. The message is built only when logging is verbose. -/
def canThrow (verbose : Bool) : InsertionStep → Bool
  | .createEntry | .emplace | .insertPointer | .insertOutpoint _ | .addOutpoint _ | .openDescendants _
  | .registerChild _ => true
  | .printDebug => verbose
  | _ => false

end InsertionStep

/-- What goes wrong during one insertion: which statement throws, if it can. -/
structure Throwing where
  verbose : Bool
  failing : Option Nat

namespace CTxMemPool

def placing : List InsertionStep :=
  [.createEntry, .emplace, .markMapInserted, .insertPointer, .printDebug, .markSetInserted]

def spending (outpoints : List COutPoint) : List InsertionStep :=
  outpoints.flatMap fun outpoint => [.insertOutpoint outpoint, .addOutpoint outpoint]

def registering (parents : List Uint256) : List InsertionStep :=
  parents.flatMap fun parent => [.openDescendants parent, .registerChild parent]

def insertionSteps (entry : CTxMemPoolEntry) : List InsertionStep :=
  placing ++ spending entry.tx.prevouts ++ [.addSize, .incrementCount] ++ registering (parents entry.tx) ++
    [.markDescendantsUpdated, .commit]

section

variable (H : HashFunctions) (throwing : Throwing) (pool : CTxMemPool)

def runSteps (entry : CTxMemPoolEntry) (steps : List InsertionStep) (pool : CTxMemPool) :
    CTxMemPool × MempoolInsertionGuard :=
  steps.foldl (InsertionStep.run H entry) (pool, {})

def guardedInsert (entry : CTxMemPoolEntry) : Check × CTxMemPool :=
  let steps := insertionSteps entry
  match throwing.failing.filter fun number => steps[number]?.any (InsertionStep.canThrow throwing.verbose) with
  | some number =>
    let state := runSteps H entry (steps.take number) pool
    (.error "Failed to add transaction to mempool: std::bad_alloc", state.2.destroy H (entry.getTxHash H) state.1)
  | none =>
    let state := runSteps H entry steps pool
    (.ok (), state.2.destroy H (entry.getTxHash H) state.1)

def attemptGuarded (currentTime : Int) : Admission → Check × CTxMemPool
  | .addTx none _ _ _ _ => (.error "Null tx", pool)
  | .addTx (some tx) fee time height bypassFeeCheck =>
    pool.addTxUnlockedWith H (guardedInsert H throwing) currentTime tx fee time height bypassFeeCheck
  | .replaceTransaction none _ _ _ => (.error "Null replacement transaction", pool)
  | .replaceTransaction (some tx) fee time height =>
    pool.replaceTransactionLockedWith H (guardedInsert H throwing) currentTime tx fee time height

def performGuarded (call : PoolCall × Throwing) : CTxMemPool :=
  match call.1 with
  | .attempt currentTime admission => (pool.attemptGuarded H call.2 currentTime admission).2
  | other => pool.perform H other

def afterGuarded (maxMempoolSize maxMempoolCount : Nat) (calls : List (PoolCall × Throwing)) : CTxMemPool :=
  calls.foldl (performGuarded H) (emptyWith maxMempoolSize maxMempoolCount)

end

/-- What throws is not the message, and not the note of an outpoint that was not noted before. -/
def RolledBack (throwing : Throwing) (entry : CTxMemPoolEntry) : Prop :=
  ∀ number, throwing.failing = some number →
    (throwing.verbose = true → (insertionSteps entry)[number]? ≠ some .printDebug) ∧
      ∀ outpoint, (insertionSteps entry)[number]? = some (.addOutpoint outpoint) →
        .addOutpoint outpoint ∈ (insertionSteps entry).take number

/-- Asked of what passes the checks: nothing else is inserted. -/
def GuardHolds (H : HashFunctions) (pool : CTxMemPool) (call : PoolCall × Throwing) : Prop :=
  match call.1 with
  | .attempt currentTime (.addTx (some tx) fee time height bypassFeeCheck) =>
    pool.Acceptable H ⟨tx, fee, time, height, bypassFeeCheck, currentTime⟩ → RolledBack call.2 ⟨tx, fee, time, height⟩
  | .attempt currentTime (.replaceTransaction (some tx) fee time height) => pool.checkReplacement H tx fee = .ok () →
    (pool.withoutConflicts H tx).Acceptable H ⟨tx, fee, time, height, false, currentTime⟩ →
      RolledBack call.2 ⟨tx, fee, time, height⟩
  | _ => True

variable {H : HashFunctions} {pool : CTxMemPool} {entry : CTxMemPoolEntry}

lemma foldl_spending (outpoints : List COutPoint) (pool : CTxMemPool) (guard : MempoolInsertionGuard) :
    (spending outpoints).foldl (InsertionStep.run H entry) (pool, guard) =
      ({ pool with
        mapSpentOutpoints := outpoints.foldl (fun spent outpoint => insert outpoint spent) pool.mapSpentOutpoints },
        { guard with outpointsAdded := guard.outpointsAdded ++ outpoints }) := by
  induction outpoints generalizing pool guard with
  | nil => simp [spending]
  | cons outpoint rest ih =>
    rw [spending, flatMap_cons, foldl_append, ← spending]
    simp [InsertionStep.run, ih]

lemma addChild_openDescendants (txid parent : Uint256) (pool : CTxMemPool) :
    addChild txid (pool.openDescendants parent) parent = addChild txid pool parent := by
  unfold openDescendants
  split
  case isTrue opens =>
    obtain ⟨present, closed⟩ := (Bool.and_eq_true _ _).mp opens
    rw [Option.isNone_iff_eq_none] at closed
    have twice : ((pool.mapDescendants.insert parent ∅).insert parent {txid}) =
        pool.mapDescendants.insert parent {txid} := by
      refine SortedMap.ext_mem fun item => ?_
      rw [SortedMap.mem_insert, SortedMap.mem_insert, SortedMap.mem_insert]
      refine or_congr_right (and_congr_right fun apart => or_iff_right_of_imp ?_ |>.trans (and_iff_right apart))
      rintro rfl
      exact absurd rfl apart
    have known : CTxMemPool.exists' { pool with mapDescendants := pool.mapDescendants.insert parent ∅ } parent = true :=
      present
    rw [addChild, addChild, if_pos known, if_pos present]
    simp [SortedMap.find_insert, closed, twice]
  case isFalse => rfl

lemma foldl_registering (parents : List Uint256) (pool : CTxMemPool) (guard : MempoolInsertionGuard) :
    (registering parents).foldl (InsertionStep.run H entry) (pool, guard) =
      (parents.foldl (addChild (entry.getTxHash H)) pool, guard) := by
  induction parents generalizing pool with
  | nil => rfl
  | cons parent rest ih =>
    rw [registering, flatMap_cons, foldl_append, ← registering]
    simp [InsertionStep.run, ih, addChild_openDescendants]

lemma foldl_insertionSteps (pool : CTxMemPool) (entry : CTxMemPoolEntry) :
    (runSteps H entry (insertionSteps entry) pool).1 = pool.insertEntry H entry ∧
      (runSteps H entry (insertionSteps entry) pool).2.committed = true := by
  rw [runSteps, insertionSteps, foldl_append, foldl_append, foldl_append, foldl_append, placing]
  simp only [foldl_cons, foldl_nil, InsertionStep.run, foldl_spending, foldl_registering]
  exact ⟨rfl, trivial⟩

/-- Where nothing throws, the guarded insertion is the plain one. -/
lemma guardedInsert_completes {throwing : Throwing} (silent : throwing.failing.filter (fun number =>
      (insertionSteps entry)[number]?.any (InsertionStep.canThrow throwing.verbose)) = none) :
    guardedInsert H throwing pool entry = inserted H pool entry := by
  obtain ⟨done, committed⟩ := foldl_insertionSteps (H := H) pool entry
  rw [guardedInsert, silent]
  dsimp only
  rw [MempoolInsertionGuard.destroy, if_pos committed, done]
  rfl

lemma openDescendants_frame (pool : CTxMemPool) (parent : Uint256) :
    ∃ descendants, pool.openDescendants parent = { pool with mapDescendants := descendants } := by
  unfold openDescendants
  split
  · exact ⟨_, rfl⟩
  · exact ⟨pool.mapDescendants, rfl⟩

lemma foldl_descendants (H : HashFunctions) (entry : CTxMemPoolEntry) {steps : List InsertionStep}
    (only : ∀ step ∈ steps, ∃ parent, step = .openDescendants parent ∨ step = .registerChild parent) (pool : CTxMemPool)
    (guard : MempoolInsertionGuard) : ∃ descendants,
      steps.foldl (InsertionStep.run H entry) (pool, guard) = ({ pool with mapDescendants := descendants }, guard) := by
  induction steps generalizing pool with
  | nil => exact ⟨pool.mapDescendants, rfl⟩
  | cons step rest ih =>
    have frame : ∃ descendants, InsertionStep.run H entry (pool, guard) step =
        ({ pool with mapDescendants := descendants }, guard) := by
      obtain ⟨parent, rfl | rfl⟩ := only step mem_cons_self
      · obtain ⟨descendants, same⟩ := openDescendants_frame pool parent
        exact ⟨descendants, congrArg (·, guard) same⟩
      · obtain ⟨descendants, same⟩ := addChild_frame (entry.getTxHash H) pool parent
        exact ⟨descendants, congrArg (·, guard) same⟩
    obtain ⟨_, same⟩ := frame
    rw [foldl_cons, same]
    exact ih (fun each inside => only each (mem_cons_of_mem _ inside)) _

lemma foldl_erase_insert {outpoints : List COutPoint}
    (fresh : ∀ outpoint ∈ outpoints, outpoint ∉ pool.mapSpentOutpoints) :
    outpoints.foldl Finset.erase (outpoints.foldl
      (fun spent outpoint => insert outpoint spent) pool.mapSpentOutpoints) =
      pool.mapSpentOutpoints := by
  refine Finset.ext fun outpoint => ?_
  rw [Coherent.mem_foldl_erase, Coherent.mem_foldl_insert]
  constructor
  · rintro ⟨apart, inside | old⟩
    · exact absurd inside apart
    · exact old
  · exact fun old => ⟨fun inside => fresh outpoint inside old, .inr old⟩

section

variable (coherent : Coherent H pool) (addable : pool.Addable H entry)

include coherent addable

/-- Once both marks are set, the rollback restores all but the descendants, if it restores the outpoints. -/
lemma destroy_restores {outpoints : List COutPoint} {spent : Finset COutPoint}
    (back : outpoints.foldl Finset.erase spent = pool.mapSpentOutpoints) (added : Nat) (incremented : Bool)
    (descendants : SortedMap Uint256 (Finset Uint256)) :
    MempoolInsertionGuard.destroy H (entry.getTxHash H) ⟨true, true, outpoints, added, incremented, false, false⟩
      { pool with
        mapTx := pool.mapTx.insert (entry.getTxHash H) entry
        setEntries := OrderedSet.insert (compareTxMemPoolEntryByFeeRate H) entry pool.setEntries
        mapSpentOutpoints := spent
        mapDescendants := descendants
        mempoolSize := pool.mempoolSize + added
        mempoolCount := pool.mempoolCount + incremented.toNat } = { pool with mapDescendants := descendants } := by
  have absent : entry ∉ pool.setEntries := fun inside =>
    SortedMap.find_eq_none_iff.mp addable.absent entry ((coherent.listed entry).mp inside)
  have unlisted : OrderedSet.erase (compareTxMemPoolEntryByFeeRate H) entry
      (OrderedSet.insert (compareTxMemPoolEntryByFeeRate H) entry pool.setEntries) = pool.setEntries := by
    refine OrderedSet.erase_insert (strict_members H (pool.mapTx.insert (entry.getTxHash H) entry))
      (SortedMap.mem_insert.mpr (.inl rfl)) (fun found inside => ?_) coherent.ordered absent
    have member := (coherent.listed found).mp inside
    exact SortedMap.mem_insert.mpr
      (.inr ⟨fun same => SortedMap.find_eq_none_iff.mp addable.absent found (same ▸ member), member⟩)
  have found : (pool.mapTx.insert (entry.getTxHash H) entry).find (entry.getTxHash H) = some entry := by
    rw [SortedMap.find_insert, if_pos rfl]
  cases incremented <;> simp [MempoolInsertionGuard.destroy, MempoolInsertionGuard.rollback, found, unlisted, back,
    SortedMap.erase_insert_of_absent addable.absent]

omit coherent in
/-- Until both marks are set, only the message between the pointer and its mark throws past the guard. -/
lemma destroy_placing {verbose : Bool} {done rest : List InsertionStep} {step : InsertionStep}
    (cut : placing = done ++ step :: rest) (throws : step.canThrow verbose = true)
    (quiet : verbose = true → step ≠ .printDebug) :
    (runSteps H entry done pool).2.destroy H (entry.getTxHash H) (runSteps H entry done pool).1 = pool := by
  have isDone : done = placing.take done.length := by rw [cut, take_left]
  have isStep : placing[done.length]? = some step := by simp [cut]
  have few : done.length < 6 := by
    have lengths := congrArg length cut
    simp only [placing, length_append, length_cons, length_nil] at lengths
    omega
  rw [isDone]
  interval_cases done.length
  all_goals obtain rfl := Option.some.inj isStep
  case «2» | «5» => cases throws
  case «4» => exact absurd rfl (quiet throws)
  all_goals simp [placing, runSteps, InsertionStep.run, MempoolInsertionGuard.destroy, MempoolInsertionGuard.rollback,
    SortedMap.erase_insert_of_absent addable.absent]

/-- The statements are followed block by block. Those that note something cannot throw. -/
lemma destroy_thrown {verbose : Bool} {done rest : List InsertionStep} {step : InsertionStep}
    (cut : insertionSteps entry = done ++ step :: rest) (throws : step.canThrow verbose = true)
    (quiet : verbose = true → step ≠ .printDebug)
    (noted : ∀ outpoint, step = .addOutpoint outpoint → .addOutpoint outpoint ∈ done) :
    ∃ descendants, (runSteps H entry done pool).2.destroy H (entry.getTxHash H) (runSteps H entry done pool).1 =
      { pool with mapDescendants := descendants } := by
  have mark {steps more tail : List InsertionStep} (silent : ∀ each ∈ steps, each.canThrow verbose = false)
      (inside : steps = more ++ step :: tail) : False := by
    have same := silent step (inside ▸ by simp)
    rw [throws] at same
    cases same
  rcases append_split cut with ⟨_, registered⟩ | ⟨_, -, last⟩
  case inr => exact (mark (by simp [InsertionStep.canThrow]) last).elim
  rcases append_split registered with ⟨_, counted⟩ | ⟨more, rfl, registering⟩
  case inr =>
    have only : ∀ each ∈ more, ∃ parent, each = .openDescendants parent ∨ each = .registerChild parent := by
      intro each inside
      have member : each ∈ CTxMemPool.registering (parents entry.tx) := registering ▸ mem_append_left _ inside
      obtain ⟨parent, -, isEach⟩ := mem_flatMap.mp member
      exact ⟨parent, by simpa using isEach⟩
    rw [runSteps, foldl_append, foldl_append, foldl_append, placing]
    simp only [foldl_cons, foldl_nil, InsertionStep.run, foldl_spending]
    obtain ⟨descendants, same⟩ := foldl_descendants H entry only _ _
    rw [same]
    exact ⟨descendants, destroy_restores coherent addable
      (foldl_erase_insert addable.unspent) entry.getTxSize true descendants⟩
  rcases append_split counted with ⟨_, spent⟩ | ⟨_, -, counts⟩
  case inr => exact (mark (by simp [InsertionStep.canThrow]) counts).elim
  rcases append_split spent with ⟨tail, placed⟩ | ⟨more, rfl, spending⟩
  case inr =>
    obtain ⟨before, outpoint, after, split, reached⟩ := flatMap_pair_split spending
    have back : before.foldl Finset.erase
        (before.foldl (fun spent outpoint => insert outpoint spent) pool.mapSpentOutpoints) =
        pool.mapSpentOutpoints := foldl_erase_insert fun other inside =>
          addable.unspent other (split ▸ mem_append_left _ inside)
    refine ⟨pool.mapDescendants, ?_⟩
    rcases reached with ⟨rfl, rfl⟩ | ⟨rfl, rfl⟩
    · rw [runSteps, foldl_append, ← CTxMemPool.spending, placing]
      simp only [foldl_cons, foldl_nil, InsertionStep.run, foldl_spending]
      exact destroy_restores coherent addable back 0 false pool.mapDescendants
    · -- the outpoint is in the set already, noted in an earlier round
      have again : outpoint ∈ before := by
        have inside := noted outpoint rfl
        simpa [placing] using inside
      have same : insert outpoint (before.foldl (fun spent outpoint => insert outpoint spent) pool.mapSpentOutpoints) =
          before.foldl (fun spent outpoint => insert outpoint spent) pool.mapSpentOutpoints :=
        Finset.insert_eq_self.mpr ((Coherent.mem_foldl_insert _ _ _).mpr (.inl again))
      rw [runSteps, foldl_append, foldl_append, ← CTxMemPool.spending, placing]
      simp only [foldl_cons, foldl_nil, InsertionStep.run, foldl_spending, same]
      exact destroy_restores coherent addable back 0 false pool.mapDescendants
  · exact ⟨pool.mapDescendants, destroy_placing addable placed throws quiet⟩

/-- An insertion that throws where the guard holds leaves everything but the descendants as it was. -/
lemma guardedInsert_thrown {throwing : Throwing} (holds : RolledBack throwing entry) {number : Nat}
    (thrown : throwing.failing.filter (fun number =>
      (insertionSteps entry)[number]?.any (InsertionStep.canThrow throwing.verbose)) = some number) :
    ∃ descendants, (guardedInsert H throwing pool entry).2 = { pool with mapDescendants := descendants } := by
  obtain ⟨fails, allocates⟩ := Option.filter_eq_some_iff.mp thrown
  obtain ⟨quiet, noted⟩ := holds number fails
  rcases isStep : (insertionSteps entry)[number]? with _ | step
  · simp [isStep] at allocates
  rw [isStep] at quiet noted allocates
  obtain ⟨inside, isItem⟩ := List.getElem?_eq_some_iff.mp isStep
  have cut : insertionSteps entry =
      (insertionSteps entry).take number ++ step :: (insertionSteps entry).drop (number + 1) := by
    rw [← isItem, ← List.drop_eq_getElem_cons inside, List.take_append_drop]
  rw [guardedInsert, thrown]
  exact destroy_thrown coherent addable cut allocates (fun verbose same => quiet verbose (congrArg some same))
    fun outpoint same => noted outpoint (congrArg some same)

end

lemma Coherent.withDescendants (coherent : Coherent H pool) (descendants : SortedMap Uint256 (Finset Uint256)) :
    Coherent H { pool with mapDescendants := descendants } :=
  ⟨coherent.keyed, coherent.listed, coherent.ordered, coherent.spent, coherent.apart, coherent.size, coherent.count,
    coherent.sizeLimit, coherent.countLimit, coherent.addressable, coherent.admitted⟩

lemma insertsCoherently_guarded {throwing : Throwing} (holds : RolledBack throwing entry) :
    InsertsCoherently H (guardedInsert H throwing) entry := by
  intro pool coherent addable
  cases thrown : throwing.failing.filter fun number =>
      (insertionSteps entry)[number]?.any (InsertionStep.canThrow throwing.verbose) with
  | none =>
    rw [guardedInsert_completes thrown]
    exact coherent.insertEntry addable
  | some number =>
    obtain ⟨descendants, same⟩ := guardedInsert_thrown coherent addable holds thrown
    rw [same]
    exact coherent.withDescendants descendants

lemma Coherent.performGuarded (coherent : Coherent H pool) {call : PoolCall × Throwing}
    (holds : pool.GuardHolds H call) :
    Coherent H (pool.performGuarded H call) := by
  obtain ⟨call, throwing⟩ := call
  cases call with
  | attempt currentTime admission =>
    cases admission with
    | addTx tx fee time height bypassFeeCheck =>
      cases tx with
      | none => exact coherent
      | some tx => exact coherent.offerWith ⟨tx, fee, time, height, bypassFeeCheck, currentTime⟩ fun acceptable =>
          insertsCoherently_guarded (holds acceptable)
    | replaceTransaction tx fee time height =>
      cases tx with
      | none => exact coherent
      | some tx =>
        change Coherent H (pool.replaceTransactionLockedWith H
          (guardedInsert H throwing) currentTime tx fee time height).2
        rcases coherent.replaceTransactionLockedWith_cases
            (guardedInsert H throwing) currentTime tx fee time height with
          ⟨text, -, done⟩ | ⟨checked, done⟩
        · rw [done]
          exact coherent
        · rw [done]
          exact (coherent.removeAll _).offerWith _ fun acceptable =>
            insertsCoherently_guarded (holds checked acceptable)
  | removeTx txid => exact coherent.perform (.removeTx txid)
  | removeConfirmedTxs blockTxs => exact coherent.perform (.removeConfirmedTxs blockTxs)
  | cleanupExpiredTransactions now => exact coherent.perform (.cleanupExpiredTransactions now)
  | clear => exact coherent.perform .clear

/-- The spent outpoints, the size, the count and the ordered entries are those of the members, no two members spend
one outpoint, and the limits are kept, if the guard holds whenever an insertion throws. -/
theorem structures_of_calls {maxMempoolSize : Nat} (addressable : maxMempoolSize ≤ sizeMax) (maxMempoolCount : Nat)
    {calls : List (PoolCall × Throwing)}
    (steps : EachStep (fun earlier call => (afterGuarded H maxMempoolSize maxMempoolCount earlier).GuardHolds H call)
      calls) :
    Coherent H (afterGuarded H maxMempoolSize maxMempoolCount calls) ∧
      (afterGuarded H maxMempoolSize maxMempoolCount calls).setEntries.Perm
        ((afterGuarded H maxMempoolSize maxMempoolCount calls).mapTx.entries.map Prod.snd) := by
  suffices coherent : Coherent H (afterGuarded H maxMempoolSize maxMempoolCount calls) from ⟨coherent, coherent.perm⟩
  induction calls using List.reverseRecOn with
  | nil => exact coherent_emptyWith addressable maxMempoolCount
  | append_singleton earlier call ih =>
    rw [afterGuarded, List.foldl_append]
    exact (ih steps.front).performGuarded steps.last

/-- A throw that is undone, and two additions after it. -/
def undoneThrow : List (PoolCall × Throwing) :=
  (.attempt 1000 (.addTx (some MempoolState.parentTx) 10000 1000 5 false), ⟨false, some 6⟩) ::
    twoAdds.map (·, ⟨false, none⟩)

theorem structures_of_undone_throw :
    (afterGuarded lengthHash defaultMaxMempoolSize defaultMaxMempoolCount (undoneThrow.take 1)).mempoolCount = 0 ∧
      (afterGuarded lengthHash defaultMaxMempoolSize defaultMaxMempoolCount undoneThrow).mempoolCount = 2 ∧
      Coherent lengthHash (afterGuarded lengthHash defaultMaxMempoolSize defaultMaxMempoolCount undoneThrow) := by
  refine ⟨by decide, by decide, (structures_of_calls (by decide) defaultMaxMempoolCount
    (((EachStep.nil.concat ?_).concat ?_).concat ?_)).1⟩
  · rintro - number fails
    cases fails
    refine ⟨by decide, fun outpoint same => ?_⟩
    cases (same : some (.insertOutpoint (sampleCoin 0)) = some (InsertionStep.addOutpoint outpoint))
  · rintro - number fails
    cases fails
  · rintro - number fails
    cases fails

/-- The note of the outpoint throws. The entry is taken back and the outpoint stays spent. -/
theorem thrown_outpoint_stays :
    let pool := afterGuarded lengthHash defaultMaxMempoolSize defaultMaxMempoolCount
      [(.attempt 1000 (.addTx (some MempoolState.parentTx) 10000 1000 5 false), ⟨false, some 7⟩)]
    pool.mempoolCount = 0 ∧ pool.isSpent (sampleCoin 0) = true ∧ ¬ Coherent lengthHash pool := by
  refine ⟨by decide, by decide, fun coherent => ?_⟩
  obtain ⟨txid, entry, inside, -⟩ := (coherent.spent (sampleCoin 0)).mp (by decide)
  have none := List.length_eq_zero_iff.mp coherent.count.symm
  rw [SortedMap.mem_def, none] at inside
  cases inside

end CTxMemPool

end Dilithion
