import Dilithion.Chain.Activate

/-! What the questions, the log and the two moves of the chain state change. Asking moves a counter, the
log is kept apart from the chain, and a move changes the tree by `linkIndex` or `unlinkIndex` and the
output set by `applyBlock` or `undoBlock`, or it fails. -/

namespace Dilithion

open Lib CBlockIndex ChainEvent

namespace CChainState

variable (env : Env) (world : World) (stage : Stage) (s : CChainState)

def after (asked : Nat) : CChainState := { s with asked := asked }

lemma ask_eq (question : Question) :
    s.ask world stage question = (world stage question s.asked, s.after (s.asked + 1)) := rfl

def Unread (hash : Uint256) : Prop := s.blocks.lookup hash = none ∨ ∃ n, world stage .readBlock n = false

variable {hash : Uint256} {t : CChainState}

lemma readBlock_cases {read : Option CBlock} (result : s.readBlock world stage hash = (read, t)) :
    t = s.after (s.asked + 1) ∧ (read = none ∧ s.Unread world stage hash ∨ ∃ block, read = some block ∧
      s.blocks.lookup hash = some block) := by
  unfold readBlock at result
  split at result <;> obtain ⟨rfl, rfl⟩ := Prod.mk.inj result <;> refine ⟨rfl, ?_⟩
  · cases stored : s.blocks.lookup hash with
    | none => exact .inl ⟨rfl, .inl stored⟩
    | some block => exact .inr ⟨block, rfl, rfl⟩
  next failed => exact .inl ⟨rfl, .inr ⟨_, by simpa using failed⟩⟩

lemma passes_cases (checks : List ContextCheck) : ∃ asked, s.passes world stage checks = (true, s.after asked) ∨
    (∃ check n, world stage (.contextCheck check) n = false) ∧
    s.passes world stage checks = (false, s.after asked) := by
  induction checks generalizing s with
  | nil => exact ⟨s.asked, .inl rfl⟩
  | cons check rest ih =>
    rw [passes, ask_eq]
    cases answer : world stage (.contextCheck check) s.asked with
    | true => exact ih (s.after (s.asked + 1))
    | false => exact ⟨_, .inr ⟨⟨check, _, answer⟩, rfl⟩⟩

section Log

variable (call : CReorgWAL → WalWrite → Bool × CReorgWAL) (finish : CReorgWAL → Bool → CReorgWAL) (hash : Uint256)

@[simp] lemma walEnd_tree : (s.walEnd world stage finish).toBlockTree = s.toBlockTree := by
  unfold walEnd
  split <;> rfl

@[simp] lemma walEnd_utxoSet : (s.walEnd world stage finish).utxoSet = s.utxoSet := by
  unfold walEnd
  split <;> rfl

@[simp] lemma walEnd_blocks : (s.walEnd world stage finish).blocks = s.blocks := by
  unfold walEnd
  split <;> rfl

@[simp] lemma walEnd_events : (s.walEnd world stage finish).events = s.events := by
  unfold walEnd
  split <;> rfl

end Log

def linkIndex (index : BlockMap) (hash : Uint256) (pprev : Option Uint256) : BlockMap :=
  (match pprev with
    | none => index
    | some parent => index.modify parent (setNext (some hash))).modify hash (raise (blockValidChain ||| blockHaveData))

def unlinkIndex (index : BlockMap) (hash : Uint256) (pprev : Option Uint256) : BlockMap :=
  (match pprev with
    | none => index
    | some parent => index.modify parent (setNext none)).modify hash
      fun entry => (setNext none entry).clear blockValidChain

section

variable (hash)

lemma linkTip_tree (pindex : CBlockIndex) (block : CBlock) : (s.linkTip hash pindex block).toBlockTree =
    { s.toBlockTree with mapBlockIndex := linkIndex s.mapBlockIndex hash pindex.pprev } := by
  unfold linkTip linkIndex modifyParent
  cases pindex.pprev <;> rfl

@[simp] lemma linkTip_utxoSet (pindex : CBlockIndex) (block : CBlock) :
    (s.linkTip hash pindex block).utxoSet = s.utxoSet := by
  unfold linkTip modifyParent
  cases pindex.pprev <;> rfl

@[simp] lemma linkTip_blocks (pindex : CBlockIndex) (block : CBlock) :
    (s.linkTip hash pindex block).blocks = s.blocks := by
  unfold linkTip modifyParent
  cases pindex.pprev <;> rfl

lemma unlinkTip_tree (pindex : CBlockIndex) (block : CBlock) : (s.unlinkTip hash pindex block).toBlockTree =
    { s.toBlockTree with mapBlockIndex := unlinkIndex s.mapBlockIndex hash pindex.pprev } := by
  unfold unlinkTip unlinkIndex modifyParent
  cases pindex.pprev <;> rfl

@[simp] lemma unlinkTip_utxoSet (pindex : CBlockIndex) (block : CBlock) :
    (s.unlinkTip hash pindex block).utxoSet = s.utxoSet := by
  unfold unlinkTip modifyParent
  cases pindex.pprev <;> rfl

@[simp] lemma unlinkTip_blocks (pindex : CBlockIndex) (block : CBlock) :
    (s.unlinkTip hash pindex block).blocks = s.blocks := by
  unfold unlinkTip modifyParent
  cases pindex.pprev <;> rfl

end

inductive Connect (hash : Uint256) (block : CBlock) : Bool → CChainState → Prop where
  | unknown (missing : s.mapBlockIndex.lookup hash = none) : Connect hash block false s
  | refused (pindex : CBlockIndex) (found : s.mapBlockIndex.lookup hash = some pindex) (asked : Nat)
      (failed : ∃ check n, world stage (.contextCheck check) n = false) :
      Connect hash block false ((s.after asked).modifyIndex hash (raise blockFailedValid))
  | inapplicable (pindex : CBlockIndex) (found : s.mapBlockIndex.lookup hash = some pindex)
      (asked : Nat) (set : CUTXOSet)
      (stopped : s.utxoSet.applyBlock env (writesAt world stage asked) block
        (UInt32.ofInt pindex.nHeight) hash = (false, set)) :
      Connect hash block false ((s.after asked).stored set).recordUtxoFailure
  | linked (pindex : CBlockIndex) (found : s.mapBlockIndex.lookup hash = some pindex) (asked : Nat) (set : CUTXOSet)
      (applied : s.utxoSet.applyBlock env (writesAt world stage asked) block
        (UInt32.ofInt pindex.nHeight) hash = (true, set)) :
      Connect hash block true (((s.after asked).stored set).linkTip hash pindex block)

inductive Disconnect (hash : Uint256) : Bool → CChainState → Prop where
  | unknown (missing : s.mapBlockIndex.lookup hash = none) : Disconnect hash false s
  | unread (nothing : s.Unread world stage hash) (asked : Nat) : Disconnect hash false (s.after asked)
  | irreversible (pindex : CBlockIndex) (found : s.mapBlockIndex.lookup hash = some pindex)
      (asked : Nat) (block : CBlock)
      (kept : s.blocks.lookup hash = some block) (set : CUTXOSet)
      (stopped : s.utxoSet.undoBlock env (writesAt world stage asked) block hash = (false, set)) :
      Disconnect hash false (((s.after asked).stored set).recordUndoFailure hash)
  | unlinked (pindex : CBlockIndex) (found : s.mapBlockIndex.lookup hash = some pindex) (asked : Nat) (block : CBlock)
      (kept : s.blocks.lookup hash = some block) (set : CUTXOSet)
      (undone : s.utxoSet.undoBlock env (writesAt world stage asked) block hash = (true, set)) :
      Disconnect hash true (((s.after asked).stored set).resetUndoFailureCounter.unlinkTip hash pindex block)

variable {env world stage s}

variable {ok : Bool}

lemma connectTip_cases {block : CBlock} {skip : Bool}
    (result : s.connectTip env world stage hash block skip = (ok, t)) : Connect env world stage s hash block ok t := by
  unfold connectTip BlockTree.getBlockIndex at result
  cases found : s.mapBlockIndex.lookup hash with
  | none =>
    rw [found] at result
    cases result
    exact .unknown found
  | some pindex =>
    simp only [found] at result
    obtain ⟨asked, passed | ⟨failed, at_⟩⟩ := passes_cases world stage s (contextChecks env pindex block skip)
    · rw [passed] at result
      dsimp only at result
      split at result
      next set stopped =>
        cases result
        exact .inapplicable pindex found asked set stopped
      next set applied =>
        cases result
        exact .linked pindex found asked set applied
    · rw [at_] at result
      cases result
      exact .refused pindex found asked failed

lemma disconnectTip_cases
    (result : s.disconnectTip env world stage hash = (ok, t)) : Disconnect env world stage s hash ok t := by
  unfold disconnectTip BlockTree.getBlockIndex at result
  cases found : s.mapBlockIndex.lookup hash with
  | none =>
    rw [found] at result
    cases result
    exact .unknown found
  | some pindex =>
    simp only [found] at result
    cases answer : s.readBlock world stage hash with
    | mk read asking =>
      rw [answer] at result
      obtain ⟨rfl, ⟨rfl, nothing⟩ | ⟨block, rfl, kept⟩⟩ := readBlock_cases world stage s answer
      · cases result
        exact .unread nothing _
      · dsimp only at result
        split at result
        next set stopped =>
          cases result
          exact .irreversible pindex found _ block kept set stopped
        next set undone =>
          cases result
          exact .unlinked pindex found _ block kept set undone

lemma recordUndoFailure_eq (s : CChainState) (hash : Uint256) : ∃ failures rebuild,
    s.recordUndoFailure hash = { s with
      lastUndoFailureHash := hash, consecutiveUndoFailures := failures, chainNeedsRebuild := rebuild } ∧
      (s.chainNeedsRebuild = true → rebuild = true) := by
  unfold recordUndoFailure
  generalize (if hash = s.lastUndoFailureHash then s.consecutiveUndoFailures + 1 else 1) = failures
  dsimp only
  split
  · exact ⟨failures, true, rfl, fun _ => rfl⟩
  · exact ⟨failures, s.chainNeedsRebuild, rfl, id⟩

lemma connectTip_announces {block : CBlock} {skip : Bool}
    (result : s.connectTip env world stage hash block skip = (ok, t)) : t.blocks = s.blocks ∧
      ∀ other height body, blockConnected other height body ∈ t.events → blockConnected other height body ∈ s.events ∨
          ok = true ∧ other = hash ∧ body = block ∧ ∃ pindex, s.mapBlockIndex.lookup hash = some pindex ∧
          pindex.nHeight = height := by
  cases connectTip_cases result with
  | unknown missing => exact ⟨rfl, fun _ _ _ old => .inl old⟩
  | refused pindex found asked failed => exact ⟨rfl, fun _ _ _ old => .inl old⟩
  | inapplicable pindex found asked set stopped => exact ⟨rfl, fun _ _ _ old => .inl old⟩
  | linked pindex found asked set applied =>
    refine ⟨linkTip_blocks .., fun other height body member => ?_⟩
    rcases List.mem_cons.mp member with new | old
    · cases new
      exact .inr ⟨rfl, rfl, rfl, pindex, found, rfl⟩
    · exact .inl old

lemma disconnectTip_announces (result : s.disconnectTip env world stage hash = (ok, t)) : t.blocks = s.blocks ∧
    ∀ other height body, blockConnected other height body ∈ t.events →
      blockConnected other height body ∈ s.events := by
  cases disconnectTip_cases result with
  | unknown missing => exact ⟨rfl, fun _ _ _ old => old⟩
  | unread nothing asked => exact ⟨rfl, fun _ _ _ old => old⟩
  | irreversible pindex found asked block kept set stopped =>
    obtain ⟨failures, rebuild, counted, -⟩ := recordUndoFailure_eq ((s.after asked).stored set) hash
    rw [counted]
    exact ⟨rfl, fun _ _ _ old => old⟩
  | unlinked pindex found asked block kept set undone =>
    refine ⟨unlinkTip_blocks .., fun other height body member => ?_⟩
    rcases List.mem_cons.mp member with new | old
    · cases new
    · exact old

end CChainState

def Exit.moves : Exit → Bool
  | .noIndex | .checkpointViolated | .noMoreWork | .notBest | .noFork | .tooDeep | .pastCheckpoint | .forkInvalid
  | .unreadable | .walFailed => false
  | _ => true

namespace CChainState

def Logged (s t : CChainState) : Prop := ∃ asked wal, t = { s with asked := asked, reorgWAL := wal }

lemma Logged.after (s : CChainState) (asked : Nat) : Logged s (s.after asked) := ⟨asked, s.reorgWAL, rfl⟩

lemma Logged.trans {s t u : CChainState} (first : Logged s t) (second : Logged t u) : Logged s u := by
  obtain ⟨_, _, rfl⟩ := first
  obtain ⟨asked, wal, rfl⟩ := second
  exact ⟨asked, wal, rfl⟩

variable {s t : CChainState}

lemma Logged.tree (logged : Logged s t) : t.toBlockTree = s.toBlockTree := by
  obtain ⟨_, _, rfl⟩ := logged
  rfl

lemma Logged.utxoSet (logged : Logged s t) : t.utxoSet = s.utxoSet := by
  obtain ⟨_, _, rfl⟩ := logged
  rfl

lemma Logged.blocks (logged : Logged s t) : t.blocks = s.blocks := by
  obtain ⟨_, _, rfl⟩ := logged
  rfl

lemma logged_walCall (world : World) (stage : Stage) (s : CChainState)
    (call : CReorgWAL → WalWrite → Bool × CReorgWAL) :
    Logged s (s.walCall world stage call).2 := by
  unfold walCall
  split
  · exact ⟨s.asked, s.reorgWAL, rfl⟩
  · exact ⟨_, _, rfl⟩

lemma logged_readable (world : World) (hashes : List Uint256) (s : CChainState) :
    Logged s (s.readable world hashes).2 := by
  induction hashes generalizing s with
  | nil => exact .after s s.asked
  | cons hash rest ih =>
    rw [readable]
    split <;> rename_i read <;> obtain ⟨rfl, -⟩ := readBlock_cases world .forward s read
    · exact .after s _
    · exact (Logged.after s _).trans (ih _)

lemma logged_preflight (env : Env) (world : World) (s : CChainState) : Logged s (s.preflight env world).2 := by
  unfold preflight
  split
  · exact .after s _
  · exact .after s s.asked

lemma logged_shouldReplaceVDFTip (env : Env) (world : World) (now : Int) (s : CChainState)
    (pindexNew pindexTip : CBlockIndex) :
    Logged s (s.shouldReplaceVDFTip env world now pindexNew pindexTip).2 := by
  unfold shouldReplaceVDFTip
  split
  · exact logged_preflight env world s
  · exact .after s s.asked

lemma logged_vdfTiebreak (env : Env) (world : World) (now : Int) (s : CChainState) (pindexNew pindexTip : CBlockIndex) :
    Logged s (s.vdfTiebreak env world now pindexNew pindexTip).2 := by
  unfold vdfTiebreak
  split
  · exact logged_preflight env world s
  · exact .after s s.asked

structure Tipped (hash : Uint256) (s t : CChainState) : Prop where
  tree : t.toBlockTree = { s.toBlockTree with pindexTip := some hash }
  utxoSet : t.utxoSet = s.utxoSet
  blocks : t.blocks = s.blocks
  connected : ∀ blockHash height block, blockConnected blockHash height block ∈ t.events →
    blockConnected blockHash height block ∈ s.events

lemma tipped_writeBestBlock (world : World) (hash : Uint256) (s : CChainState) :
    Tipped hash s ((s.setTip hash).writeBestBlock world .forward hash) := by
  unfold writeBestBlock
  split <;> exact ⟨rfl, rfl, rfl, fun _ _ _ member => member⟩

lemma Tipped.walEnd {hash : Uint256} (tipped : Tipped hash s t) (world : World) (stage : Stage)
    (finish : CReorgWAL → Bool → CReorgWAL) : Tipped hash s (t.walEnd world stage finish) := by
  refine ⟨(walEnd_tree ..).trans tipped.tree, (walEnd_utxoSet ..).trans tipped.utxoSet,
    (walEnd_blocks ..).trans tipped.blocks, ?_⟩
  rw [walEnd_events]
  exact tipped.connected

lemma Tipped.notify {hash : Uint256} (tipped : Tipped hash s t) (announced : Uint256) :
    Tipped hash s (t.notifyTipUpdate announced) where
  tree := tipped.tree
  utxoSet := tipped.utxoSet
  blocks := tipped.blocks
  connected := fun blockHash height block member =>
    tipped.connected blockHash height block (by simpa [notifyTipUpdate] using member)

structure Plan (t : BlockTree) (tip pindexNew fork : Uint256) (off on : List Uint256) : Prop where
  forked : t.findFork tip pindexNew = some fork
  down : t.pathFrom tip fork = some off
  up : t.pathFrom pindexNew fork = some on

/-- The block and the tip have the same parent. -/
structure Siblings (s : CChainState) (tip pindexNew : Uint256) : Prop where
  atTip : s.pindexTip = some tip
  parent : ∃ entry pindexTip, s.mapBlockIndex.lookup pindexNew = some entry ∧
    s.mapBlockIndex.lookup tip = some pindexTip ∧
    entry.pprev = pindexTip.pprev

inductive Activation (env : Env) (world : World) (s : CChainState) (pindexNew : Uint256) (block : CBlock) :
    Exit → CChainState → Prop where
  | idle {exit : Exit} {t : CChainState} (quiet : exit.moves = false) (logged : Logged s t) :
      Activation env world s pindexNew block exit t
  | refused {t : CChainState} (entry : CBlockIndex) (found : s.mapBlockIndex.lookup pindexNew = some entry)
      (fits : s.pindexTip = none ∨ entry.pprev = s.pindexTip)
      (step : s.connectTip env world .forward pindexNew block false = (false, t)) :
      Activation env world s pindexNew block .connectFailed t
  | extended {t u : CChainState} (entry : CBlockIndex) (found : s.mapBlockIndex.lookup pindexNew = some entry)
      (fits : s.pindexTip = none ∨ entry.pprev = s.pindexTip)
      (step : s.connectTip env world .forward pindexNew block false = (true, t)) (tipped : Tipped pindexNew t u) :
      Activation env world s pindexNew block .connected u
  | stuck {begun t : CChainState} (tip : Uint256) (siblings : Siblings s tip pindexNew) (logged : Logged s begun)
      (step : begun.disconnectTip env world .forward tip = (false, t)) :
      Activation env world s pindexNew block .replaceDisconnectFailed t
  | bereft {begun below t : CChainState} (tip : Uint256) (siblings : Siblings s tip pindexNew) (logged : Logged s begun)
      (off : begun.disconnectTip env world .forward tip = (true, below))
      (step : below.connectTip env world .forward pindexNew block false = (false, t)) :
      Activation env world s pindexNew block .replaceConnectFailed t.flagChainRebuild
  | replaced {begun below t u : CChainState} (tip : Uint256) (siblings : Siblings s tip pindexNew)
      (logged : Logged s begun)
      (off : begun.disconnectTip env world .forward tip = (true, below))
      (step : below.connectTip env world .forward pindexNew block false = (true, t)) (tipped : Tipped pindexNew t u) :
      Activation env world s pindexNew block .replaced u
  | switched {begun t : CChainState} {exit : Exit} {fork : Uint256} {off on : List Uint256} (tip : Uint256)
      (atTip : s.pindexTip = some tip) (turns : ∀ entry ∈ s.mapBlockIndex.lookup pindexNew, entry.pprev ≠ some tip)
      (plan : Plan s.toBlockTree tip pindexNew fork off on) (logged : Logged s begun)
      (outcome : begun.switchChains env world pindexNew block off on.reverse = (exit, t)) :
      Activation env world s pindexNew block exit t

variable {env : Env} {world : World} {s t : CChainState} {pindexNew : Uint256} {block : CBlock} {exit : Exit}

variable {begun : CChainState} {tip : Uint256} {pindexTip entry : CBlockIndex} {now : Int}

section

variable (atTip : s.pindexTip = some tip) (turns : ∀ entry ∈ s.mapBlockIndex.lookup pindexNew, entry.pprev ≠ some tip)
  (logged : Logged s begun)

include atTip turns logged

lemma reorganize_cases (result : begun.reorganize env world tip pindexNew pindexTip block = (exit, t)) :
    Activation env world s pindexNew block exit t := by
  have idle : ∀ {early : Exit} {other : CChainState}, (early, other) = (exit, t) →
      early.moves = false → Logged s other →
      Activation env world s pindexNew block exit t := by
    intro early other same quiet logged
    cases same
    exact .idle quiet logged
  unfold reorganize at result
  rw [logged.tree] at result
  split at result
  · exact idle result rfl logged
  next fork forked =>
    split at result
    next pindexFork off on atFork down up =>
      simp only at result
      have read := logged.trans (logged_readable world
        (off ++ on.reverse.filter fun hash => decide (hash ≠ pindexNew)) begun)
      split at result
      · exact idle result rfl logged
      · split at result
        · exact idle result rfl logged
        · split at result
          · exact idle result rfl logged
          · split at result
            · exact idle result rfl read
            · split at result
              · exact idle result rfl (read.trans (logged_walCall ..))
              · exact .switched tip atTip turns ⟨forked, down, up⟩ (read.trans (logged_walCall ..)) result
    · exact idle result rfl logged

lemma compete_cases
    (result : begun.compete env world now tip pindexNew entry pindexTip block = (exit, t)) :
    Activation env world s pindexNew block exit t := by
  unfold compete at result
  split at result
  · exact reorganize_cases atTip turns logged result
  · have asked := logged.trans (logged_vdfTiebreak env world now begun entry pindexTip)
    dsimp only at result
    split at result
    · exact reorganize_cases atTip turns asked result
    · cases result
      exact .idle rfl asked

end

lemma replaceTip_cases (siblings : Siblings s tip pindexNew) (logged : Logged s begun)
    (result : begun.replaceTip env world tip pindexNew block = (exit, t)) :
    Activation env world s pindexNew block exit t := by
  unfold replaceTip at result
  split at result
  next stuck step =>
    cases result
    exact .stuck tip siblings logged step
  next below off =>
    split at result
    next left step =>
      cases result
      exact .bereft tip siblings logged off step
    next reached step =>
      cases result
      have tipped := tipped_writeBestBlock world pindexNew reached
      exact .replaced tip siblings logged off step (tipped.notify pindexNew)

section

variable (found : s.mapBlockIndex.lookup pindexNew = some entry)

include found

lemma connectFirst_cases
    (noTip : s.pindexTip = none) (result : s.connectFirst env world pindexNew block = (exit, t)) :
    Activation env world s pindexNew block exit t := by
  unfold connectFirst at result
  split at result
  next left step =>
    cases result
    exact .refused entry found (.inl noTip) step
  next reached step =>
    cases result
    exact .extended entry found (.inl noTip) step (tipped_writeBestBlock world pindexNew reached)

lemma extendTip_cases
    (fits : entry.pprev = s.pindexTip)
    (result : s.extendTip env world now pindexNew entry pindexTip block = (exit, t)) :
    Activation env world s pindexNew block exit t := by
  unfold extendTip at result
  split at result
  · cases result
    exact .idle rfl (.after s s.asked)
  · split at result
    next left step =>
      cases result
      exact .refused entry found (.inr fits) step
    next reached step =>
      cases result
      refine .extended entry found (.inr fits) step (Tipped.notify ?_ pindexNew)
      unfold anchorVdfGrace writeBestBlock
      split <;> split <;> exact ⟨rfl, rfl, rfl, fun _ _ _ member => member⟩

end

lemma sibling_of_replace
    (replace : (s.shouldReplaceVDFTip env world now entry pindexTip).1 = true) : entry.pprev = pindexTip.pprev := by
  unfold shouldReplaceVDFTip at replace
  split at replace
  next conditions => simp_all
  · cases replace

lemma activateBestChain_cases (result : s.activateBestChain env world now pindexNew block = (exit, t)) :
    Activation env world s pindexNew block exit t := by
  unfold activateBestChain BlockTree.getBlockIndex at result
  split at result
  · cases result
    exact .idle rfl (.after s s.asked)
  next entry found =>
    split at result
    · cases result
      exact .idle rfl (.after s s.asked)
    · split at result
      next noTip => exact connectFirst_cases found noTip result
      next tip atTip =>
        split at result
        · cases result
          exact .idle rfl (.after s s.asked)
        next pindexTip foundTip =>
          split at result
          next fits => exact extendTip_cases found (fits.trans atTip.symm) result
          next apart =>
            have logged := logged_shouldReplaceVDFTip env world now s entry pindexTip
            dsimp only at result
            split at result
            next replace =>
              exact replaceTip_cases ⟨atTip, entry, pindexTip, found, foundTip,
                sibling_of_replace replace⟩ logged result
            · refine compete_cases atTip (fun other foundToo => ?_) logged result
              cases found.symm.trans foundToo
              exact apart

end CChainState

end Dilithion
