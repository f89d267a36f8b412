import Dilithion.Lib.Census
import Dilithion.Node.CacheTransparency

/-! The counters of the UTXO set against the outputs it holds. A block changes the counters once for
every input and output, whether or not an output replaces an entry that was there and whether or not an
undone output is still there; so they stay exact when every removal takes out an entry of that value and
every put fills a free outpoint. -/

namespace Dilithion

open Lib Lib.WriteBatch Lib.Ledger Lib.Counter Change Event List

def CUTXOEntry.worth (entry : CUTXOEntry) : Nat := entry.out.nValue.toNat

/-- The counters are the number and the value of the outputs in `live`, which are those of the ledger. -/
def Counted (ledger : UTXOLedger) (stats : CUTXOStats) (live : Finset COutPoint) : Prop :=
  Census CUTXOEntry.worth ledger live stats.nUTXOs.toNat stats.nTotalAmount.toNat

/-- Each removal takes out an entry of that value, and each put fills a free outpoint. -/
def Exact : UTXOLedger → List Change → Prop
  | _, [] => True
  | now, .remove outpoint nValue :: rest =>
    (now outpoint).map (fun entry => entry.out.nValue) = some nValue ∧ Exact ((consume outpoint).apply now) rest
  | now, .put outpoint entry :: rest =>
    now outpoint = none ∧ Exact ((create outpoint entry).apply now) rest

instance decidableExact : (now : UTXOLedger) → (changes : List Change) → Decidable (Exact now changes)
  | _, [] => inferInstanceAs (Decidable True)
  | now, .remove outpoint _ :: rest =>
    have := decidableExact ((consume outpoint).apply now) rest
    inferInstanceAs (Decidable (_ ∧ Exact ((consume outpoint).apply now) rest))
  | now, .put outpoint entry :: rest =>
    have := decidableExact ((create outpoint entry).apply now) rest
    inferInstanceAs (Decidable (_ ∧ Exact ((create outpoint entry).apply now) rest))

structure Bounded (stats : CUTXOStats) (changes : List Change) : Prop where
  units : stats.nUTXOs.toNat + (changes.filterMap added).length < 2 ^ 64
  amounts : stats.nTotalAmount.toNat + valueSum (changes.filterMap added) < 2 ^ 64

variable {ledger : UTXOLedger} {stats : CUTXOStats} {live : Finset COutPoint}

section

variable (counted : Counted ledger stats live)

include counted

variable {outpoint : COutPoint}

lemma Counted.put (free : ledger outpoint = none) (entry : CUTXOEntry)
    (units : stats.nUTXOs.toNat + 1 < 2 ^ 64) (amounts : stats.nTotalAmount.toNat + entry.out.nValue.toNat < 2 ^ 64) :
    Counted ((create outpoint entry).apply ledger) (stats.add entry.out.nValue) (insert outpoint live) := by
  have count : (stats.add entry.out.nValue).nUTXOs.toNat = stats.nUTXOs.toNat + 1 := toNat_up stats.nUTXOs 1 units
  have total : (stats.add entry.out.nValue).nTotalAmount.toNat = stats.nTotalAmount.toNat + entry.out.nValue.toNat :=
    toNat_up stats.nTotalAmount entry.out.nValue amounts
  rw [Counted, count, total]
  exact Census.create counted free entry

lemma Counted.remove {entry : CUTXOEntry} (held : ledger outpoint = some entry) :
    Counted ((consume outpoint).apply ledger) (stats.subtract entry.out.nValue) (live.erase outpoint) ∧
      (stats.subtract entry.out.nValue).nUTXOs.toNat ≤ stats.nUTXOs.toNat ∧
      (stats.subtract entry.out.nValue).nTotalAmount.toNat ≤ stats.nTotalAmount.toNat := by
  obtain ⟨positive, covered, after⟩ := Census.consume counted held
  have guard : 0 < stats.nUTXOs := UInt64.lt_iff_toNat_lt.mpr positive
  have enough : entry.out.nValue ≤ stats.nTotalAmount := UInt64.le_iff_toNat_le.mpr covered
  have count : (stats.subtract entry.out.nValue).nUTXOs.toNat = stats.nUTXOs.toNat - 1 := by
    rw [CUTXOStats.subtract, if_pos guard]
    exact UInt64.toNat_sub_of_le _ _ (UInt64.le_iff_toNat_le.mpr positive)
  have total : (stats.subtract entry.out.nValue).nTotalAmount.toNat =
      stats.nTotalAmount.toNat - entry.out.nValue.toNat := by
    rw [CUTXOStats.subtract, if_pos enough]
    exact UInt64.toNat_sub_of_le _ _ enough
  refine ⟨?_, by omega, by omega⟩
  rw [Counted, count, total]
  exact after

lemma Counted.changes {changes : List Change} (exact_ : Exact ledger changes) (bounded : Bounded stats changes) :
    ∃ live', Counted (run ledger (changes.map event)) (changes.foldl count stats) live' := by
  induction changes generalizing ledger stats live with
  | nil => exact ⟨live, counted⟩
  | cons change rest ih =>
    obtain ⟨units, amounts⟩ := bounded
    cases change with
    | put outpoint entry =>
      obtain ⟨free, later⟩ := exact_
      simp only [added, filterMap_cons, length_cons, valueSum, map_cons, sum_cons] at units amounts
      have next := counted.put free entry (by omega) (by omega)
      have count : (stats.add entry.out.nValue).nUTXOs.toNat = stats.nUTXOs.toNat + 1 :=
        toNat_up stats.nUTXOs 1 (show _ + 1 < _ by omega)
      have total : (stats.add entry.out.nValue).nTotalAmount.toNat =
          stats.nTotalAmount.toNat + entry.out.nValue.toNat :=
        toNat_up stats.nTotalAmount entry.out.nValue (by omega)
      have still : Bounded (stats.add entry.out.nValue) rest :=
        ⟨by omega, by rw [valueSum]; omega⟩
      exact ih next later still
    | remove outpoint nValue =>
      obtain ⟨present, later⟩ := exact_
      obtain ⟨entry, held, same⟩ := Option.map_eq_some_iff.mp present
      subst same
      simp only [added, filterMap_cons, valueSum] at units amounts
      obtain ⟨next, fewer, less⟩ := counted.remove held
      have still : Bounded (stats.subtract entry.out.nValue) rest := ⟨by omega, by rw [valueSum]; omega⟩
      exact ih next later still

end

lemma Exact.eachUnspent {base now : UTXOLedger} {events : List UTXOEvent}
    (complete : (walkChanges base now events).map event = events)
    (exact_ : Exact now (walkChanges base now events)) : EachUnspent now events := by
  induction events generalizing now with
  | nil => trivial
  | cons event rest ih =>
    cases event with
    | create outpoint entry =>
      simp only [walkChanges, map_cons, event_put, cons.injEq, true_and] at complete
      exact ih complete exact_.2
    | consume outpoint =>
      cases found : (now outpoint).or (base outpoint) with
      | none => simp [walkChanges, found] at complete
      | some entry =>
        simp only [walkChanges, found, map_cons, event_remove, cons.injEq, true_and] at complete
        simp only [walkChanges, found] at exact_
        obtain ⟨held, here, -⟩ := Option.map_eq_some_iff.mp exact_.1
        exact ⟨by simp [here], ih complete exact_.2⟩

structure ApplyCounts (env : Env) (stats : CUTXOStats) (ledger : UTXOLedger)
    (events : List UTXOEvent) : Prop where
  room : events.length ≤ env.maxCacheSize
  few : events.length < 2 ^ 32
  clear : ∀ event ∈ events, ¬ UndoLike event.key
  unreadable : UndoUnreadable env.hashes ledger events
  exact_ : Exact ledger (walkChanges ledger ledger events)
  bounded : Bounded stats (walkChanges ledger ledger events)

structure UndoCounts (env : Env) (stats : CUTXOStats) (p : PlainSet) (block : CBlock) (blockHash : Uint256) : Prop where
  room : (p.undoChanges env.hashes block blockHash).length ≤ env.maxCacheSize
  clear : ∀ change ∈ p.undoChanges env.hashes block blockHash, ¬ UndoLike change.event.key
  exact_ : Exact p.entries (p.undoChanges env.hashes block blockHash)
  bounded : Bounded stats (p.undoChanges env.hashes block blockHash)

/-- The set holds what the map holds, nothing is pending, and the counters are right. -/
structure Tracked (env : Env) (s : CUTXOSet) (p : PlainSet) : Prop where
  coherent : s.Coherent
  represents : Represents env.hashes s p
  counted : ∃ live, Counted p.entries s.stats live

section

variable {env : Env} {s s' : CUTXOSet} {p : PlainSet} {block : CBlock} {height : UInt32} {blockHash : Uint256}

lemma Tracked.applyBlock (tracked : Tracked env s p)
    (counts : ApplyCounts env s.stats p.entries (blockEvents env.hashes height block))
    (accepted : (s.applyBlock env {} block height blockHash).1 = true) :
    Tracked env (s.applyBlock env {} block height blockHash).2 (p.applyBlock env.hashes block height blockHash) := by
  have stored : s.stored = p.entries := by rw [← tracked.coherent.held_eq, tracked.represents.entries]
  rcases applyBlock_cases {} blockHash tracked.coherent counts.room with
    ⟨-, refused⟩ | ⟨changes, set, -, refused⟩ | ⟨changes, applying, nonempty, applies, outcome⟩
  · simp [refused] at accepted
  · simp [refused] at accepted
  · have isOpen : (applying.finish env height blockHash).set.isOpen = true := applies.stages.isOpen
    have committed : s.applyBlock env {} block height blockHash =
        (true, (applying.finish env height blockHash).committed) := by
      rw [outcome, Staged.commit_eq isOpen]
      rfl
    have walk := applies.walk
    have walked := applies.walked
    have records := applies.records
    rw [stored] at walk records
    have exact_ := counts.exact_
    have bounded := counts.bounded
    have unspent : EachUnspent p.entries (blockEvents env.hashes height block) :=
      exact_.eachUnspent (by rw [walk, walked])
    rw [walk] at exact_ bounded
    have sound : SoundBlock env.hashes p.entries (blockEvents env.hashes height block) :=
      ⟨counts.few, (eachUnspent_iff_noRespend records).mp unspent, counts.unreadable,
        fun missing => by rw [records] at missing; cases missing⟩
    have applied : Applied env s block height blockHash changes applying.spent
        (applying.finish env height blockHash).committed := applies.committed nonempty
    obtain ⟨coherent, represents⟩ := tracked.represents.applied stored counts.clear sound applied
    obtain ⟨live, counted⟩ := tracked.counted
    obtain ⟨live', after⟩ := counted.changes exact_ bounded
    have entries : (p.applyBlock env.hashes block height blockHash).entries = run p.entries (changes.map event) := by
      rw [PlainSet.applyBlock, if_neg (by simpa using nonempty), spentRecords_strict sound.once, records, walked]
    rw [committed]
    refine ⟨coherent, represents, live', ?_⟩
    show Census _ _ _ applying.staged.set.stats.nUTXOs.toNat applying.staged.set.stats.nTotalAmount.toNat
    rw [entries, applies.stages.stats]
    exact after

lemma Tracked.undoBlock (tracked : Tracked env s p) (counts : UndoCounts env s.stats p block blockHash)
    (undone : (s.undoBlock env {} block blockHash).1 = true) :
    Tracked env (s.undoBlock env {} block blockHash).2 (p.undoBlock env.hashes block blockHash) := by
  rcases tracked.represents.undoBlock_planned tracked.coherent counts.room counts.clear with
    ⟨outcome, -⟩ | ⟨plan, staged, -, plans, stages, outcome, coherent, represents⟩
  · simp [outcome] at undone
  · obtain ⟨live, counted⟩ := tracked.counted
    obtain ⟨live', after⟩ := counted.changes counts.exact_ counts.bounded
    rw [outcome]
    refine ⟨coherent, represents, live', ?_⟩
    show Census _ _ _ staged.set.stats.nUTXOs.toNat staged.set.stats.nTotalAmount.toNat
    rw [plans.outcome, stages.stats, plans.changes]
    exact after

end

/-- Calls of `ApplyBlock` and `UndoBlock` from the empty set, all of which returned true, with the plain
map after them. -/
inductive CountRun (env : Env) : List UtxoCall → CUTXOSet → PlainSet → Prop where
  | start : CountRun env [] emptySet .empty
  | apply {calls : List UtxoCall} {now : CUTXOSet} {map : PlainSet} (run : CountRun env calls now map)
      (block : CBlock) (height : UInt32) (blockHash : Uint256)
      (accepted : (now.applyBlock env {} block height blockHash).1 = true)
      (counts : ApplyCounts env now.stats map.entries (blockEvents env.hashes height block)) :
      CountRun env (calls ++ [.applyBlock block height blockHash]) (now.applyBlock env {} block height blockHash).2
        (map.applyBlock env.hashes block height blockHash)
  | undo {calls : List UtxoCall} {now : CUTXOSet} {map : PlainSet} (run : CountRun env calls now map)
      (block : CBlock) (blockHash : Uint256) (undone : (now.undoBlock env {} block blockHash).1 = true)
      (counts : UndoCounts env now.stats map block blockHash) :
      CountRun env (calls ++ [.undoBlock block blockHash]) (now.undoBlock env {} block blockHash).2
        (map.undoBlock env.hashes block blockHash)

lemma tracked_emptySet (env : Env) : Tracked env emptySet .empty :=
  ⟨emptySet_coherent, .empty env.hashes, ∅, Census.empty⟩

lemma CountRun.tracked {env : Env} {calls : List UtxoCall} {now : CUTXOSet} {map : PlainSet}
    (run : CountRun env calls now map) : Tracked env now map := by
  induction run with
  | start => exact tracked_emptySet env
  | apply earlier block height blockHash accepted counts ih => exact ih.applyBlock counts accepted
  | undo earlier block blockHash undone counts ih => exact ih.undoBlock counts undone

/-- Along every such run the counters are the number and the value of the outputs that `GetUTXO` finds. -/
theorem stats_exact_of_run {env : Env} {calls : List UtxoCall} {now : CUTXOSet} {map : PlainSet}
    (run : CountRun env calls now map) :
    ∃ live : Finset COutPoint, (∀ outpoint, outpoint ∈ live ↔ (now.getUTXO env outpoint).1 ≠ none) ∧
      now.stats.nUTXOs.toNat = live.card ∧
      now.stats.nTotalAmount.toNat =
        ∑ outpoint ∈ live, ((now.getUTXO env outpoint).1.elim 0 fun entry => entry.out.nValue.toNat) := by
  obtain ⟨live, counted⟩ := run.tracked.counted
  have answers := run.tracked.represents.answers env
  refine ⟨live, fun outpoint => ?_, counted.card.symm, ?_⟩
  · rw [answers]
    exact counted.live_iff outpoint
  · rw [← counted.sum]
    refine Finset.sum_congr rfl fun outpoint _ => ?_
    rw [answers]
    rfl

def rewardBlock : CBlock := blockOf .null [rewardTx]

def fundingTx : CTransaction := ⟨1, [⟨⟨.null, 0xFFFFFFFF⟩, [1, 2], 0xFFFFFFFF⟩], [⟨100000000, [0x51]⟩], 0⟩

def fundingBlock : CBlock := blockOf .null [fundingTx]

def fundingEnv : Env where
  hashes := .ofTable [(fundingTx.serialize, fundedOutPoint.hash), (rewardTx.serialize, rewardOutPoint.hash),
    (firstTx.serialize, firstOutPoint.hash)]

def appliedFunding : CUTXOSet := (emptySet.applyBlock fundingEnv {} fundingBlock 1 (.ofNat 7)).2

def plainFunding : PlainSet := PlainSet.empty.applyBlock fundingEnv.hashes fundingBlock 1 (.ofNat 7)

lemma fundingBlock_counts :
    ApplyCounts fundingEnv emptySet.stats PlainSet.empty.entries (blockEvents fundingEnv.hashes 1 fundingBlock) := by
  refine ⟨by decide, by decide, by decide, fun spent found => ?_, by decide +kernel, by decide, by decide +kernel⟩
  cases found
  rfl

lemma payingBlock_counts :
    ApplyCounts fundingEnv appliedFunding.stats plainFunding.entries (blockEvents fundingEnv.hashes 2 payingBlock) := by
  refine ⟨by decide +kernel, by decide +kernel, by decide +kernel,
    fun spent found => ?_, by decide +kernel, by decide +kernel, by decide +kernel⟩
  have spends : spentRecords plainFunding.entries plainFunding.entries (blockEvents fundingEnv.hashes 2 payingBlock) =
      some [(fundedOutPoint, ⟨⟨100000000, [0x51]⟩, 1, true⟩)] := by decide +kernel
  cases found.symm.trans spends
  decide +kernel

/-- An output is created, spent and restored. -/
theorem stats_exact_payment :
    ∃ now map, CountRun fundingEnv [.applyBlock fundingBlock 1 (.ofNat 7), .applyBlock payingBlock 2 (.ofNat 8),
        .undoBlock payingBlock (.ofNat 8)] now map ∧ now.stats.nUTXOs = 1 ∧
      ∃ live : Finset COutPoint, (∀ outpoint, outpoint ∈ live ↔ (now.getUTXO fundingEnv outpoint).1 ≠ none) ∧
        now.stats.nUTXOs.toNat = live.card ∧
        now.stats.nTotalAmount.toNat =
          ∑ outpoint ∈ live, ((now.getUTXO fundingEnv outpoint).1.elim 0 fun entry => entry.out.nValue.toNat) := by
  have funded : CountRun fundingEnv [.applyBlock fundingBlock 1 (.ofNat 7)] appliedFunding plainFunding :=
    CountRun.start.apply fundingBlock 1 (.ofNat 7) (by rfl) fundingBlock_counts
  have paid := funded.apply payingBlock 2 (.ofNat 8) (by decide +kernel) payingBlock_counts
  have undone := paid.undo payingBlock (.ofNat 8) (by decide +kernel)
    ⟨by decide +kernel, by decide +kernel, by decide +kernel, by decide +kernel, by decide +kernel⟩
  exact ⟨_, _, undone, by decide +kernel, stats_exact_of_run undone⟩

/-- A block that only creates one output is sound whatever the ledger is. -/
lemma soundBlock_create {H : HashFunctions} (unreadable : deserializeUTXOEntry (undoData H []) = none)
    (ledger : UTXOLedger) (outpoint : COutPoint) (entry : CUTXOEntry) :
    SoundBlock H ledger [.create outpoint entry] where
  few := by simp
  once := trivial
  unreadable := by
    intro spent found
    cases found
    exact unreadable
  quiet := fun missing => by cases missing

/-- Two blocks with the same coinbase transaction: one output, counted twice. -/
theorem repeated_coinbase_counted_twice : (emptySet.applyBlock doubleSpendEnv {} rewardBlock 1 (.ofNat 7)).1 = true ∧
    ((emptySet.applyBlock doubleSpendEnv {} rewardBlock 1 (.ofNat 7)).2.applyBlock doubleSpendEnv {} rewardBlock 2
      (.ofNat 8)).1 = true ∧
    ((emptySet.applyBlock doubleSpendEnv {} rewardBlock 1 (.ofNat 7)).2.applyBlock doubleSpendEnv {} rewardBlock 2
      (.ofNat 8)).2.stats.nUTXOs = 2 ∧
    ∀ live : Finset COutPoint, (∀ outpoint, outpoint ∈ live ↔
        (((emptySet.applyBlock doubleSpendEnv {} rewardBlock 1 (.ofNat 7)).2.applyBlock doubleSpendEnv {} rewardBlock 2
          (.ofNat 8)).2.getUTXO doubleSpendEnv outpoint).1 ≠ none) → live.card = 1 := by
  refine ⟨by decide, by decide, by decide, fun live complete => ?_⟩
  have unreadable : deserializeUTXOEntry (undoData doubleSpendEnv.hashes []) = none := by decide
  have events : blockEvents doubleSpendEnv.hashes 1 rewardBlock =
      [.create rewardOutPoint ⟨⟨5000000000, [0x51]⟩, 1, true⟩] := by decide
  have again : blockEvents doubleSpendEnv.hashes 2 rewardBlock =
      [.create rewardOutPoint ⟨⟨5000000000, [0x51]⟩, 2, true⟩] := by decide
  have first : Represents doubleSpendEnv.hashes (emptySet.applyBlock doubleSpendEnv {} rewardBlock 1 (.ofNat 7)).2
      (PlainSet.empty.applyBlock doubleSpendEnv.hashes rewardBlock 1 (.ofNat 7)) :=
    (Represents.empty doubleSpendEnv.hashes).applyBlock
      ⟨by decide, by decide, by decide +kernel⟩ (events ▸ soundBlock_create unreadable _ _ _) _
  have second := first.applyBlock ⟨by decide +kernel, by decide +kernel, by decide⟩
    (again ▸ soundBlock_create unreadable _ _ _) (.ofNat 8)
  have entries : ((PlainSet.empty.applyBlock doubleSpendEnv.hashes rewardBlock 1 (.ofNat 7)).applyBlock
      doubleSpendEnv.hashes rewardBlock 2 (.ofNat 8)).entries =
      Function.update (Function.update (fun _ => none) rewardOutPoint (some ⟨⟨5000000000, [0x51]⟩, 1, true⟩))
        rewardOutPoint (some ⟨⟨5000000000, [0x51]⟩, 2, true⟩) := by
    rfl
  have only : live = {rewardOutPoint} := by
    ext outpoint
    rw [complete, second.answers, entries]
    by_cases here : outpoint = rewardOutPoint
    · simp [here]
    · simp [here]
  rw [only, Finset.card_singleton]

end Dilithion
