import Dilithion.Chain.FailedReorg
import Dilithion.Node.UtxoMirror

/-! The output set and the active chain. The set is consistent with the chain if it answers as a set to
which the blocks of the chain were applied one after the other. Activating a block keeps it so whatever
fails on the way forward, as long as the blocks above the fork can be taken back exactly and nothing
fails while rolling back, if the call has to; a rollback that fails leaves the set with another chain's outputs. -/

namespace Dilithion.CChainState

open Lib Lib.Ledger BlockTree CBlockIndex List

/-- The blocks of a chain, listed from the tip down, applied one after the other. -/
def replay (env : Env) (s : CChainState) : List Uint256 → CUTXOSet
  | [] => emptySet
  | hash :: rest =>
    match s.mapBlockIndex.lookup hash, s.blocks.lookup hash with
    | some pindex, some block => ((s.replay env rest).applyBlock env {} block (UInt32.ofInt pindex.nHeight) hash).2
    | _, _ => s.replay env rest

/-- Every block of the chain is stored and is accepted when its turn comes. -/
def Accepted (env : Env) (s : CChainState) : List Uint256 → Prop
  | [] => True
  | hash :: rest => s.Accepted env rest ∧ ∃ pindex block, s.mapBlockIndex.lookup hash = some pindex ∧
      s.blocks.lookup hash = some block ∧
      ((s.replay env rest).applyBlock env {} block (UInt32.ofInt pindex.nHeight) hash).1 = true

/-- The set answers as the fold of `ApplyBlock` over the active chain. -/
def Consistent (env : Env) (s : CChainState) : Prop :=
  s.Accepted env s.activeChain ∧
    ∀ outpoint, s.utxoSet.view env outpoint = (s.replay env s.activeChain).view env outpoint

def RebuildRecorded (s : CChainState) : Prop :=
  s.chainNeedsRebuild = true ∨ ∃ wal, s.reorgWAL = some wal ∧ wal.leavesIncomplete = true

/-- On top of the chain the block can be taken back, or is refused without a trace. -/
def Places (env : Env) (s : CChainState) (chain : List Uint256) (hash : Uint256) : Prop :=
  s.Accepted env chain → ∀ pindex block, s.mapBlockIndex.lookup hash = some pindex → s.blocks.lookup hash = some block →
    WellPlaced env (s.replay env chain).stored chain block (UInt32.ofInt pindex.nHeight) hash

/-- The set is in order at `base`, and each of the blocks above it can be moved where it stands. -/
def Fits (env : Env) (s : CChainState) (base : List Uint256) : List Uint256 → Prop
  | [] => s.Accepted env base → (s.replay env base).Coherent
  | hash :: above => s.Fits env base above ∧ s.Places env (above ++ base) hash

variable {env : Env} {world : World} {stage : Stage} {spared : Uint256 → Prop} {origin s t : CChainState}
  {chain above base : List Uint256} {hash : Uint256} {block : CBlock} {pindex : CBlockIndex}

lemma replay_cons (found : s.mapBlockIndex.lookup hash = some pindex) (body : s.blocks.lookup hash = some block) :
    s.replay env (hash :: chain) =
      ((s.replay env chain).applyBlock env {} block (UInt32.ofInt pindex.nHeight) hash).2 := by
  rw [replay, found, body]

lemma Fits.coherent (fits : s.Fits env base above) (accepted : s.Accepted env (above ++ base)) :
    (s.replay env (above ++ base)).Coherent := by
  induction above with
  | nil => exact fits accepted
  | cons hash rest ih =>
    obtain ⟨acceptedRest, pindex, block, found, body, taken⟩ := accepted
    have below := ih fits.1 acceptedRest
    have placed := fits.2 acceptedRest pindex block found body
    rw [cons_append, replay_cons found body]
    obtain ⟨changes, spent, applied⟩ := applyBlock_applied below placed.room (Prod.fst_eq_iff.mp taken)
    exact applied.coherent placed.free

structure InStep (env : Env) (spared : Uint256 → Prop) (origin s : CChainState) (chain : List Uint256) : Prop
    extends Standing spared origin s chain where
  blocks : s.blocks = origin.blocks
  accepted : origin.Accepted env chain
  mirrors : Mirrors chain s.utxoSet (origin.replay env chain)

lemma InStep.of_parts (inStep : InStep env spared origin s chain) (tree : t.toBlockTree = s.toBlockTree)
    (set : t.utxoSet = s.utxoSet) (blocks : t.blocks = s.blocks) : InStep env spared origin t chain :=
  ⟨inStep.toStanding.of_tree tree, blocks.trans inStep.blocks, inStep.accepted, set ▸ inStep.mirrors⟩

lemma writesAt_of_made (made : ∀ n, world stage .writeUTXOs n = true) (asked : Nat) :
    writesAt world stage asked = {} := by
  unfold writesAt
  rw [made, made]

lemma Relabelled.height (relabelled : Relabelled spared origin.mapBlockIndex s.mapBlockIndex)
    (found : s.mapBlockIndex.lookup hash = some pindex) :
    ∃ old, origin.mapBlockIndex.lookup hash = some old ∧ old.nHeight = pindex.nHeight := by
  obtain ⟨old, at_, same⟩ := relabelled.lookup_before found
  exact ⟨old, at_, (nHeight_of_bare same).symm⟩

section

variable (made : ∀ n, world stage .writeUTXOs n = true) (inStep : InStep env spared origin s (above ++ base))
  (fits : origin.Fits env base (hash :: above))

include made inStep fits

lemma InStep.connect (path : Path origin.mapBlockIndex (hash :: above ++ base))
    (body : origin.blocks.lookup hash = some block) {skip : Bool}
    (result : s.connectTip env world stage hash block skip = (true, t)) :
    InStep env spared origin t (hash :: above ++ base) := by
  have standing := inStep.toStanding.connect path result
  cases connectTip_cases result with
  | linked pindex found asked set applied =>
    obtain ⟨old, at_, height⟩ := Relabelled.height inStep.relabelled found
    have placed := fits.2 inStep.accepted old block at_ body
    rw [writesAt_of_made made, ← height] at applied
    rcases inStep.mirrors.applyBlock (fits.1.coherent inStep.accepted) placed with
      ⟨set', other, outcome, taken, -, mirrors⟩ | ⟨set', other, outcome, -⟩
    · cases applied.symm.trans outcome
      have accepted : origin.Accepted env (hash :: (above ++ base)) :=
        ⟨inStep.accepted, old, block, at_, body, by rw [taken]⟩
      refine ⟨standing, ?_, accepted, ?_⟩
      · rw [linkTip_blocks]
        exact inStep.blocks
      · rw [linkTip_utxoSet, cons_append, replay_cons at_ body, taken]
        exact mirrors
    · cases applied.symm.trans outcome

lemma InStep.connect_failed (exposed : ¬ spared hash) (body : origin.blocks.lookup hash = some block)
    {skip : Bool} (result : s.connectTip env world stage hash block skip = (false, t)) :
    InStep env spared origin t (above ++ base) := by
  have standing := inStep.toStanding.connect_failed exposed result
  cases connectTip_cases result with
  | unknown missing => exact inStep
  | refused pindex found asked failed => exact ⟨standing, inStep.blocks, inStep.accepted, inStep.mirrors⟩
  | inapplicable pindex found asked set stopped =>
    obtain ⟨old, at_, height⟩ := Relabelled.height inStep.relabelled found
    have placed := fits.2 inStep.accepted old block at_ body
    rw [writesAt_of_made made, ← height] at stopped
    rcases inStep.mirrors.applyBlock (fits.1.coherent inStep.accepted) placed with
      ⟨set', other, outcome, -⟩ | ⟨set', other, outcome, -, mirrors⟩
    · cases stopped.symm.trans outcome
    · cases stopped.symm.trans outcome
      exact ⟨standing, inStep.blocks, inStep.accepted, mirrors⟩

end

lemma InStep.undo (inStep : InStep env spared origin s (hash :: above ++ base))
    (fits : origin.Fits env base (hash :: above)) :
    ∃ block set, origin.blocks.lookup hash = some block ∧ s.utxoSet.undoBlock env {} block hash = (true, set) ∧
      Mirrors (above ++ base) set (origin.replay env (above ++ base)) := by
  obtain ⟨acceptedRest, pindex, block, found, body, taken⟩ := inStep.accepted
  have placed := fits.2 acceptedRest pindex block found body
  have mirrors := inStep.mirrors
  rw [cons_append, replay_cons found body] at mirrors
  obtain ⟨set, undone, back⟩ := mirrors.undoBlock (fits.1.coherent acceptedRest) placed (Prod.fst_eq_iff.mp taken)
  exact ⟨block, set, body, undone, back⟩

section

variable (made : ∀ n, world stage .writeUTXOs n = true) (inStep : InStep env spared origin s (hash :: above ++ base))
  (fits : origin.Fits env base (hash :: above))

include made inStep fits

lemma InStep.disconnect (path : Path origin.mapBlockIndex (hash :: above ++ base))
    (distinct : (hash :: above ++ base).Nodup)
    (result : s.disconnectTip env world stage hash = (true, t)) : InStep env spared origin t (above ++ base) := by
  have standing := inStep.toStanding.disconnect path distinct result
  obtain ⟨block, set, body, undone, back⟩ := inStep.undo fits
  cases disconnectTip_cases result with
  | unlinked pindex found asked block' kept set' undone' =>
    rw [inStep.blocks, body] at kept
    cases kept
    rw [writesAt_of_made made] at undone'
    cases undone.symm.trans undone'
    refine ⟨standing, ?_, inStep.accepted.1, ?_⟩
    · rw [unlinkTip_blocks]
      exact inStep.blocks
    · rw [unlinkTip_utxoSet]
      exact back

lemma InStep.disconnect_failed (result : s.disconnectTip env world stage hash = (false, t)) :
    InStep env spared origin t (hash :: above ++ base) := by
  obtain ⟨block, set, body, undone, -⟩ := inStep.undo fits
  cases disconnectTip_cases result with
  | unknown missing => exact inStep
  | unread nothing asked => exact inStep.of_parts rfl rfl rfl
  | irreversible pindex found asked block' kept set' stopped =>
    rw [inStep.blocks, body] at kept
    cases kept
    rw [writesAt_of_made made] at stopped
    cases undone.symm.trans stopped

end

structure Fitting (env : Env) (origin : CChainState) (base above : List Uint256) : Prop where
  path : Path origin.mapBlockIndex (above ++ base)
  distinct : (above ++ base).Nodup
  fits : origin.Fits env base above

lemma Fitting.shorten (fitting : Fitting env origin base (hash :: above)) : Fitting env origin base above :=
  ⟨fitting.path.2, (nodup_cons.mp fitting.distinct).2, fitting.fits.1⟩

/-- The set follows the blocks above `base` in every stage whose writes are made. -/
lemma inStep_tracking (env : Env) (world : World) (spared : Uint256 → Prop)
    (origin : CChainState) (base : List Uint256) :
    Tracking env world (fun stage => ∀ n, world stage .writeUTXOs n = true)
      (fun s above => InStep env spared origin s (above ++ base)) (Fitting env origin base) (fun hash => ¬ spared hash)
      fun hash block => origin.blocks.lookup hash = some block where
  shorten := Fitting.shorten
  logged := fun inStep logged => inStep.of_parts logged.tree logged.utxoSet logged.blocks
  ended := fun _ _ inStep => inStep.of_parts (walEnd_tree ..) (walEnd_utxoSet ..) (walEnd_blocks ..)
  stored := fun inStep stored => inStep.blocks ▸ stored
  connect := fun made inStep fitting body result => inStep.connect made fitting.fits fitting.path body result
  connect_failed := fun made inStep fitting exposed body result =>
    inStep.connect_failed made fitting.fits exposed body result
  disconnect := fun made inStep fitting result =>
    inStep.disconnect made fitting.fits fitting.path fitting.distinct result
  disconnect_failed := fun made inStep fitting result => inStep.disconnect_failed made fitting.fits result
  failChild := fun inStep exposed =>
    ⟨inStep.toStanding.failChild exposed, inStep.blocks, inStep.accepted, inStep.mirrors⟩

/-- In this stage no write of the set, no read of a block and no contextual check fails. -/
structure Unfailing (world : World) (stage : Stage) : Prop where
  made : ∀ n, world stage .writeUTXOs n = true
  read : ∀ n, world stage .readBlock n = true
  passed : ∀ check n, world stage (.contextCheck check) n = true

section Unfailing

variable (unfailing : Unfailing world stage)

include unfailing

lemma Unfailing.readBlock (stored : s.blocks.lookup hash = some block) :
    s.readBlock world stage hash = (some block, s.after (s.asked + 1)) := by
  rw [CChainState.readBlock, if_pos (unfailing.read _), stored]
  rfl

lemma InStep.disconnectTip (inStep : InStep env spared origin s (hash :: above ++ base))
    (fitting : Fitting env origin base (hash :: above)) : ∃ t, s.disconnectTip env world stage hash = (true, t) := by
  cases result : s.disconnectTip env world stage hash with
  | mk ok t =>
    cases ok with
    | true => exact ⟨t, rfl⟩
    | false =>
      obtain ⟨block, set, body, undone, -⟩ := inStep.undo fitting.fits
      cases disconnectTip_cases result with
      | unknown missing =>
        obtain ⟨⟨entry, found, -⟩, -⟩ := inStep.relabelled.path fitting.path
        cases missing.symm.trans found
      | unread nothing asked =>
        rcases nothing with missing | ⟨n, failed⟩
        · rw [inStep.blocks, body] at missing
          cases missing
        · cases failed.symm.trans (unfailing.read n)
      | irreversible pindex found asked block' kept set' stopped =>
        rw [inStep.blocks, body] at kept
        cases kept
        rw [writesAt_of_made unfailing.made] at stopped
        cases undone.symm.trans stopped

lemma InStep.connectTip (inStep : InStep env spared origin s (above ++ base))
    (fitting : Fitting env origin base (hash :: above))
    (accepted : origin.Accepted env (hash :: above ++ base))
    (body : origin.blocks.lookup hash = some block) (skip : Bool) :
    ∃ t, s.connectTip env world stage hash block skip = (true, t) := by
  cases result : s.connectTip env world stage hash block skip with
  | mk ok t =>
    cases ok with
    | true => exact ⟨t, rfl⟩
    | false =>
      cases connectTip_cases result with
      | unknown missing =>
        obtain ⟨⟨entry, found, -⟩, -⟩ := inStep.relabelled.path fitting.path
        cases missing.symm.trans found
      | refused pindex found asked failed =>
        obtain ⟨check, n, refused⟩ := failed
        cases refused.symm.trans (unfailing.passed check n)
      | inapplicable pindex found asked set stopped =>
        obtain ⟨old, at_, height⟩ := Relabelled.height inStep.relabelled found
        rw [cons_append] at accepted
        obtain ⟨acceptedRest, same, block', foundSame, bodySame, taken⟩ := accepted
        cases at_.symm.trans foundSame
        cases body.symm.trans bodySame
        have placed := fitting.fits.2 acceptedRest old block at_ body
        rw [writesAt_of_made unfailing.made, ← height] at stopped
        rcases inStep.mirrors.applyBlock (fitting.fits.1.coherent acceptedRest) placed with
          ⟨set', other, outcome, -⟩ | ⟨set', other, -, refused, -⟩
        · cases stopped.symm.trans outcome
        · rw [refused] at taken
          cases taken

end Unfailing

lemma Accepted.drop (accepted : s.Accepted env (above ++ chain)) : s.Accepted env chain := by
  induction above with
  | nil => exact accepted
  | cons hash rest ih => exact ih accepted.1

section

variable {items : List Uint256}

lemma InStep.disconnectAgain (unfailing : Unfailing world .rollback)
    (inStep : InStep env spared origin s (items ++ above ++ base))
    (fitting : Fitting env origin base (items ++ above)) : ∃ t, s.disconnectAgain env world items = (true, t) := by
  induction items generalizing s with
  | nil => exact ⟨s, rfl⟩
  | cons hash rest ih =>
    obtain ⟨below, step⟩ := inStep.disconnectTip unfailing fitting
    rw [CChainState.disconnectAgain, step]
    exact ih (inStep.disconnect unfailing.made fitting.fits fitting.path fitting.distinct step) fitting.shorten

lemma InStep.reconnectAll (unfailing : Unfailing world .rollback) (inStep : InStep env spared origin s (above ++ base))
    (fitting : Fitting env origin base (items.reverse ++ above))
    (accepted : origin.Accepted env (items.reverse ++ above ++ base)) :
    ∃ t, s.reconnectAll env world items = (true, t) := by
  have tracking := inStep_tracking env world spared origin base
  induction items generalizing s above with
  | nil => exact ⟨s, rfl⟩
  | cons hash rest ih =>
    rw [reverse_cons, ← append_cons] at fitting accepted
    have here : origin.Accepted env (hash :: above ++ base) := Accepted.drop (append_assoc .. ▸ accepted)
    obtain ⟨-, pindex, block, -, body, -⟩ := id here
    have asked := tracking.logged inStep (.after s (s.asked + 1))
    have fittingHere := tracking.drop fitting
    obtain ⟨moved, step⟩ := asked.connectTip unfailing fittingHere here body true
    rw [CChainState.reconnectAll, unfailing.readBlock (inStep.blocks ▸ body)]
    simp only [step]
    exact ih (tracking.connect unfailing.made asked fittingHere body step) fitting accepted

/-- Without failures on the way back, a rollback runs to its end. -/
lemma RollsBack.succeeds {restored : List Uint256} {outcome : Exit × CChainState}
    (unfailing : Unfailing world .rollback)
    (rollsBack : RollsBack env world (fun s above => InStep env spared origin s (above ++ base))
      (Fitting env origin base) restored outcome)
    (fitting : Fitting env origin base restored) (accepted : origin.Accepted env (restored ++ base)) :
    outcome.1 = .rolledBack ∧ InStep env spared origin outcome.2 (restored ++ base) := by
  have tracking := inStep_tracking env world spared origin base
  rcases tracking.rolledBack unfailing.made fitting rollsBack with lost | restored
  · obtain ⟨s, connected, disconnected, above, inStep, isGood, rfl, rfl⟩ := rollsBack
    obtain ⟨cleared, disconnects⟩ := inStep.disconnectAgain unfailing isGood
    have below := tracking.disconnectAgain unfailing.made inStep isGood disconnects
    obtain ⟨back, reconnects⟩ := below.reconnectAll unfailing fitting accepted
    simp only [rollBack, disconnects, reconnects] at lost
    cases lost
  · exact restored

lemma RollsBack.exit {P : CChainState → List Uint256 → Prop} {good : List Uint256 → Prop} {restored : List Uint256}
    {outcome : Exit × CChainState} (rollsBack : RollsBack env world P good restored outcome) :
    outcome.1 = .rolledBack ∨ outcome.1 = .rollbackFailed := by
  obtain ⟨s, connected, disconnected, above, -, -, -, rfl⟩ := rollsBack
  unfold rollBack
  split
  · exact .inr rfl
  · split
    · exact .inr rfl
    · exact .inl rfl

/-! The way forward, if nothing fails on it. -/

variable (unfailing : Unfailing world .forward)

include unfailing

lemma InStep.disconnectLoop (done : List Uint256) (inStep : InStep env spared origin s (items ++ above ++ base))
    (fitting : Fitting env origin base (items ++ above)) :
    ∃ t, s.disconnectLoop env world done items = .ok t ∧ InStep env spared origin t (above ++ base) := by
  have tracking := inStep_tracking env world spared origin base
  induction items generalizing s done with
  | nil => exact ⟨s, rfl, inStep⟩
  | cons hash rest ih =>
    obtain ⟨below, step⟩ := inStep.disconnectTip unfailing fitting
    have moved := tracking.disconnect unfailing.made inStep fitting step
    rw [CChainState.disconnectLoop, step]
    exact ih (hash :: done) (tracking.logged moved (logged_walCall ..)) fitting.shorten

lemma InStep.connectLoop {pindexNew : Uint256} (known : origin.blocks.lookup pindexNew = some block)
    (disconnected done : List Uint256)
    (inStep : InStep env spared origin s (above ++ base)) (fitting : Fitting env origin base (items.reverse ++ above))
    (accepted : origin.Accepted env (items.reverse ++ above ++ base)) :
    ∃ t, s.connectLoop env world pindexNew block disconnected done items = .ok t := by
  have tracking := inStep_tracking env world spared origin base
  induction items generalizing s above done with
  | nil => exact ⟨s, rfl⟩
  | cons hash rest ih =>
    rw [reverse_cons, ← append_cons] at fitting accepted
    have here : origin.Accepted env (hash :: above ++ base) := Accepted.drop (append_assoc .. ▸ accepted)
    obtain ⟨-, pindex, body, -, stored, -⟩ := id here
    have fittingHere := tracking.drop fitting
    obtain ⟨asking, same, asked⟩ :
        ∃ asking, (if hash = pindexNew then (some block, s) else s.readBlock world .forward hash) =
        (some body, asking) ∧ InStep env spared origin asking (above ++ base) := by
      split
      next isNew =>
        subst isNew
        cases known.symm.trans stored
        exact ⟨s, rfl, inStep⟩
      · exact ⟨_, unfailing.readBlock (inStep.blocks ▸ stored), tracking.logged inStep (.after s (s.asked + 1))⟩
    obtain ⟨moved, step⟩ := asked.connectTip unfailing fittingHere here stored true
    have higher := tracking.connect unfailing.made asked fittingHere stored step
    rw [CChainState.connectLoop, same]
    simp only [step]
    exact ih (hash :: done) (tracking.logged higher (logged_walCall ..)) fitting accepted

end

lemma replay_relabelled (relabelled : Relabelled spared s.mapBlockIndex t.mapBlockIndex) (blocks : t.blocks = s.blocks)
    (chain : List Uint256) : t.replay env chain = s.replay env chain ∧
    (s.Accepted env chain → t.Accepted env chain) := by
  induction chain with
  | nil => exact ⟨rfl, id⟩
  | cons hash rest ih =>
    refine ⟨?_, ?_⟩
    · have same := (relabelled hash).1
      rw [replay, replay, blocks, ih.1]
      cases found : s.mapBlockIndex.lookup hash with
      | none =>
        rw [found] at same
        rw [Option.map_eq_none_iff.mp same]
      | some old =>
        obtain ⟨entry, at_, equal⟩ := relabelled.lookup found
        rw [at_]
        cases s.blocks.lookup hash with
        | none => rfl
        | some block => simp only [nHeight_of_bare equal]
    · rintro ⟨acceptedRest, old, block, found, body, taken⟩
      obtain ⟨entry, at_, equal⟩ := relabelled.lookup found
      refine ⟨ih.2 acceptedRest, entry, block, at_, blocks ▸ body, ?_⟩
      rw [ih.1, nHeight_of_bare equal]
      exact taken

/-- A state in step with the chain below its own tip is consistent. -/
lemma InStep.consistent (inStep : InStep env spared origin s (above ++ base)) (fits : origin.Fits env base above)
    (relabelled : Relabelled spared origin.mapBlockIndex t.mapBlockIndex) (set : t.utxoSet = s.utxoSet)
    (blocks : t.blocks = s.blocks) (active : t.activeChain = above ++ base) : Consistent env t := by
  obtain ⟨same, accepted⟩ := replay_relabelled relabelled (blocks.trans inStep.blocks) (above ++ base)
  refine ⟨active ▸ accepted inStep.accepted, fun outpoint => ?_⟩
  rw [active, same, set, inStep.mirrors.coherent.view_eq,
    (fits.coherent inStep.accepted).view_eq, inStep.mirrors.stored]

/-- The call has not to turn round: its block extends the tip, or nothing fails on the way to it. -/
inductive Straight (env : Env) (world : World) (s : CChainState) (pindexNew : Uint256)
    (off on base : List Uint256) : Prop where
  | extending (parent : ∃ entry ∈ s.mapBlockIndex.lookup pindexNew, entry.pprev = s.pindexTip)
  | unfailing (forward : Unfailing world .forward) (accepted : s.Accepted env (pindexNew :: on ++ base))

/-- What a call must find for the set to stay consistent: the index records the chain below the tip; the set and its
undo records are those of that chain; the new block is the one in the database; above `base`, which both chains
share, the blocks can be taken back exactly; no write of the set fails on the way forward, and nothing on the way
back if there is one. -/
structure Prepared (env : Env) (world : World) (s : CChainState) (pindexNew : Uint256) (block : CBlock)
    (off on base : List Uint256) : Prop where
  active : Active s.toBlockTree
  hasTip : s.pindexTip ≠ none
  branches : Branches s pindexNew off on base
  accepted : s.Accepted env s.activeChain
  mirrors : Mirrors s.activeChain s.utxoSet (s.replay env s.activeChain)
  fits : s.Fits env base off
  fitsNew : s.Fits env base (pindexNew :: on)
  body : s.blocks.lookup pindexNew = some block
  made : ∀ n, world .forward .writeUTXOs n = true
  back : Straight env world s pindexNew off on base ∨ Unfailing world .rollback

section Call

variable {pindexNew : Uint256} {exit : Exit} {off on : List Uint256}
  (prepared : Prepared env world s pindexNew block off on base)

include prepared

lemma Prepared.start (spared : Uint256 → Prop) : InStep env spared s s (off ++ base) := by
  rw [← prepared.branches.old]
  exact ⟨standing_start prepared.active spared, rfl, prepared.accepted, prepared.mirrors⟩

lemma Prepared.consistent_of_same (inStep : InStep env spared s t (off ++ base)) : Consistent env t := by
  refine inStep.consistent prepared.fits inStep.relabelled rfl rfl ?_
  rw [activeChain, inStep.tip, inStep.relabelled.ancestry_eq prepared.active.stepped, ← prepared.branches.old]
  rfl

lemma Prepared.consistent_of_tipped {reached : CChainState}
    (inStep : InStep env spared s reached (pindexNew :: on ++ base))
    (tipped : Tipped pindexNew reached t) : Consistent env t := by
  have relabelled : Relabelled spared s.mapBlockIndex t.mapBlockIndex := by
    rw [tipped.tree]
    exact inStep.relabelled
  refine inStep.consistent prepared.fitsNew relabelled tipped.utxoSet tipped.blocks ?_
  have tip : t.pindexTip = some pindexNew := by rw [tipped.tree]
  rw [activeChain, tip, relabelled.ancestry_eq prepared.active.stepped, ← prepared.branches.new]

lemma Prepared.fitting : Fitting env s base off := by
  have path := prepared.active.path
  have distinct := prepared.active.nodup
  rw [prepared.branches.old] at path distinct
  exact ⟨path, distinct, prepared.fits⟩

lemma Prepared.fittingNew : Fitting env s base (pindexNew :: on) := by
  have path := path_ancestry prepared.active.stepped (some pindexNew)
  have distinct := (descent_ancestry prepared.active.stepped (some pindexNew)).nodup
  rw [prepared.branches.new] at path distinct
  exact ⟨path, distinct, prepared.fitsNew⟩

/-- A reorganisation is not turned round when it goes straight. -/
lemma Prepared.reorganized {begun : CChainState} {tip fork : Uint256} {offTip onTop : List Uint256}
    (straight : Straight env world s pindexNew off on base) (atTip : s.pindexTip = some tip)
    (turns : ∀ entry ∈ s.mapBlockIndex.lookup pindexNew, entry.pprev ≠ some tip)
    (plan : Plan s.toBlockTree tip pindexNew fork offTip onTop) (logged : Logged s begun) :
    (begun.switchChains env world pindexNew block offTip onTop.reverse).1 = .reorganized := by
  have tracking := inStep_tracking env world (fun _ => False) s base
  cases straight with
  | extending parent =>
    obtain ⟨entry, found, link⟩ := parent
    exact absurd (link.trans atTip) (turns entry found)
  | unfailing forward accepted =>
    have old := prepared.branches.old
    rw [activeChain, atTip] at old
    obtain ⟨extra, -, rfl, new⟩ := (plan.sides prepared.active.stepped).above old prepared.branches.new
    have fittingNew := prepared.fittingNew
    rw [new] at fittingNew accepted
    have start := tracking.logged (tracking.logged (prepared.start _) logged)
      (logged_walCall world .forward begun CReorgWAL.enterDisconnectPhase)
    obtain ⟨below, disconnects, reached⟩ := InStep.disconnectLoop forward [] start prepared.fitting
    rw [← reverse_reverse onTop] at fittingNew accepted
    obtain ⟨above, connects⟩ := InStep.connectLoop forward prepared.body offTip.reverse []
      (tracking.logged reached (logged_walCall world .forward below CReorgWAL.enterConnectPhase)) fittingNew accepted
    simp only [switchChains, disconnects, connects]

/-- A call that goes straight does not roll back. -/
lemma Prepared.not_turned (straight : Straight env world s pindexNew off on base)
    (activation : Activation env world s pindexNew block exit t) : exit ≠ .rolledBack ∧ exit ≠ .rollbackFailed := by
  cases activation with
  | idle quiet logged => constructor <;> (rintro rfl; cases quiet)
  | switched tip atTip turns plan logged outcome =>
    have reached := prepared.reorganized straight atTip turns plan logged
    rw [outcome] at reached
    cases reached
    exact ⟨nofun, nofun⟩
  | _ => exact ⟨nofun, nofun⟩

lemma Prepared.activation (activation : Activation env world s pindexNew block exit t) :
    Consistent env t ∨ RebuildRecorded t := by
  have tracking := inStep_tracking env world (fun _ => False) s base
  cases tracking.activation prepared.made prepared.active prepared.hasTip prepared.branches
      (prepared.start _) prepared.fitting
      prepared.fittingNew (fun _ => not_false) prepared.body activation with
  | stayed inStep => exact .inl (prepared.consistent_of_same inStep)
  | rolled rollsBack =>
    rcases prepared.back with straight | unfailing
    · have forwards := prepared.not_turned straight activation
      rcases rollsBack.exit with turned | turned
      · exact absurd turned forwards.1
      · exact absurd turned forwards.2
    · have accepted := prepared.accepted
      rw [prepared.branches.old] at accepted
      exact .inl (prepared.consistent_of_same (rollsBack.succeeds unfailing prepared.fitting accepted).2)
  | moved inStep tipped => exact .inl (prepared.consistent_of_tipped inStep tipped)
  | bereft _ _ flagged => exact .inr (.inl (flagged ▸ rfl))

end Call

lemma fits_cons (pindex : CBlockIndex) (block : CBlock) (fits : s.Fits env base above)
    (found : s.mapBlockIndex.lookup hash = some pindex) (body : s.blocks.lookup hash = some block)
    (placed : WellPlaced env (s.replay env (above ++ base)).stored (above ++ base) block
      (UInt32.ofInt pindex.nHeight) hash) :
    s.Fits env base (hash :: above) := by
  refine ⟨fits, fun _ pindex' block' found' body' => ?_⟩
  cases found.symm.trans found'
  cases body.symm.trans body'
  exact placed

lemma forkState_fits_genesis : forkState.Fits forkEnv [forkGenesis] [] := by
  have genesis : forkState.Fits forkEnv [] [forkGenesis] :=
    fits_cons (forkEntry none (some forkTip) 0 1 0 blockConnected) (forkBlock none 0)
      (fun _ => emptySet_coherent) (by rfl)
      (by decide +kernel) (wellPlaced_of_test (by decide +kernel))
  exact genesis.coherent

lemma forkState_fits_tip : forkState.Fits forkEnv [forkGenesis] [forkTip] :=
  fits_cons (forkEntry (some forkGenesis) none 1 2 1 blockConnected)
    (forkBlock (some forkGenesis) 1) forkState_fits_genesis
    (by decide +kernel) (by decide +kernel) (wellPlaced_of_test (by decide +kernel))

lemma forkState_fits_rival : forkState.Fits forkEnv [forkGenesis] [forkRival, forkRivalParent] := by
  have parent : forkState.Fits forkEnv [forkGenesis] [forkRivalParent] :=
    fits_cons (forkEntry (some forkGenesis) none 1 2 2 (blockHaveData ||| blockValidTransactions))
      (forkBlock (some forkGenesis) 2) forkState_fits_genesis (by decide +kernel) (by decide +kernel)
      (wellPlaced_of_test (by decide +kernel))
  exact fits_cons (forkEntry (some forkRivalParent) none 2 3 3 (blockHaveData ||| blockValidTransactions))
    (forkBlock (some forkRivalParent) 3) parent (by decide) (by rfl) (wellPlaced_of_test (by decide +kernel))

lemma forkState_accepted : forkState.Accepted forkEnv forkState.activeChain := by
  exact ⟨⟨trivial, forkEntry none (some forkTip) 0 1 0 blockConnected, forkBlock none 0, by decide +kernel, by rfl,
      by rfl⟩,
    forkEntry (some forkGenesis) none 1 2 1 blockConnected, forkBlock (some forkGenesis) 1, by decide, by rfl,
    by rfl⟩

lemma forkState_replay : forkState.replay forkEnv forkState.activeChain = forkState.utxoSet := rfl

lemma forkState_branches : Branches forkState forkRival [forkTip] [forkRivalParent] [forkGenesis] :=
  ⟨by decide, by decide⟩

lemma forkState_prepared : Prepared forkEnv (refusingWorld 25) forkState forkRival (forkBlock (some forkRivalParent) 3)
    [forkTip] [forkRivalParent] [forkGenesis] where
  active := forkState_active
  hasTip := by decide
  branches := forkState_branches
  accepted := forkState_accepted
  mirrors := by
    have coherent := forkState_fits_tip.coherent (forkState_branches.old ▸ forkState_accepted)
    rw [← forkState_branches.old, forkState_replay] at coherent
    rw [forkState_replay]
    exact .refl coherent _
  fits := forkState_fits_tip
  fitsNew := forkState_fits_rival
  body := by decide
  made := fun n => rfl
  back := .inr ⟨fun n => rfl, fun n => rfl, fun check n => rfl⟩

/-- As `refusingWorld`, and no block can be read while rolling back. -/
def unreadableWorld (passed : Nat) : World
  | .forward, .contextCheck _, n => decide (n < passed)
  | .rollback, .readBlock, _ => false
  | _, _, _ => true

def rivalReward : COutPoint := ⟨.ofNat 0xeb32c5092f7aa8a5834e79ed253bb7ae39ea722aadae070d94949501cecca549, 0⟩

end Dilithion.CChainState
