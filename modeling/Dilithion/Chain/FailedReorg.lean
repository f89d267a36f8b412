import Dilithion.Chain.ActiveChain
import Dilithion.Chain.Tracking
import Dilithion.Node.UtxoApply

/-! A reorganisation that fails. The chain that the index records is followed through the call; after a rollback that
runs to its end it is the old one, with its entries as they were. -/

namespace Dilithion.CChainState

open Lib BlockTree CBlockIndex

/-- The index of `s` records `chain`, and apart from that is the index of `origin`. -/
structure Standing (spared : Uint256 → Prop) (origin s : CChainState) (chain : List Uint256) : Prop where
  tip : s.pindexTip = origin.pindexTip
  relabelled : Relabelled spared origin.mapBlockIndex s.mapBlockIndex
  marked : Marked s.mapBlockIndex chain

variable {env : Env} {world : World} {stage : Stage} {spared : Uint256 → Prop}
  {origin s t : CChainState} {chain : List Uint256}

lemma Standing.of_tree (standing : Standing spared origin s chain) (same : t.toBlockTree = s.toBlockTree) :
    Standing spared origin t chain := by
  refine ⟨?_, ?_, ?_⟩
  · rw [same, standing.tip]
  · rw [same]; exact standing.relabelled
  · rw [same]; exact standing.marked

variable {hash : Uint256}

lemma Standing.link {now : List Uint256} (standing : Standing spared origin s now)
    (path : Path origin.mapBlockIndex (hash :: chain)) {pindex : CBlockIndex}
    (found : s.mapBlockIndex.lookup hash = some pindex) : pindex.pprev = chain.head? := by
  obtain ⟨⟨entry, at_, link⟩, -⟩ := standing.relabelled.path path
  cases found.symm.trans at_
  exact link

lemma Standing.disconnect (standing : Standing spared origin s (hash :: chain))
    (path : Path origin.mapBlockIndex (hash :: chain)) (distinct : (hash :: chain).Nodup)
    (result : s.disconnectTip env world stage hash = (true, t)) : Standing spared origin t chain := by
  cases disconnectTip_cases result with
  | unlinked pindex found asked block kept set undone =>
    have link := standing.link path found
    have tree := unlinkTip_tree ((s.after asked).stored set).resetUndoFailureCounter hash pindex block
    refine ⟨?_, ?_, ?_⟩
    · rw [tree]
      exact standing.tip
    · rw [tree]
      exact standing.relabelled.trans (relabelled_of_map (fun _ => lookup_unlinkIndex) fun _ => core_unlinkEntry)
    · rw [tree, link]
      exact standing.marked.unlink distinct

lemma recordUndoFailure_tree (s : CChainState) (hash : Uint256) :
    (s.recordUndoFailure hash).toBlockTree = s.toBlockTree := by
  obtain ⟨failures, rebuild, counted, -⟩ := recordUndoFailure_eq s hash
  rw [counted]

section

variable (standing : Standing spared origin s chain)

include standing

lemma Standing.connect {block : CBlock} {skip : Bool} (path : Path origin.mapBlockIndex (hash :: chain))
    (result : s.connectTip env world stage hash block skip = (true, t)) : Standing spared origin t (hash :: chain) := by
  cases connectTip_cases result with
  | linked pindex found asked set applied =>
    have link := standing.link path found
    have tree := linkTip_tree ((s.after asked).stored set) hash pindex block
    refine ⟨?_, ?_, ?_⟩
    · rw [tree]
      exact standing.tip
    · rw [tree]
      exact standing.relabelled.trans (relabelled_of_map (fun _ => lookup_linkIndex) fun _ => core_linkEntry)
    · rw [tree, link]
      exact standing.marked.link hash

lemma Standing.connect_failed {block : CBlock} {skip : Bool}
    (exposed : ¬ spared hash) (result : s.connectTip env world stage hash block skip = (false, t)) :
    Standing spared origin t chain := by
  cases connectTip_cases result with
  | unknown missing => exact standing
  | refused pindex found asked failed =>
    refine ⟨standing.tip, standing.relabelled.trans (relabelled_modify exposed fun _ => rfl), ?_⟩
    exact standing.marked.modify hash (fun _ => rfl) (validChain_raise (by decide))
      fun entry data => haveData_raise _ entry (.inl data)
  | inapplicable pindex found asked set stopped => exact standing.of_tree rfl

lemma Standing.disconnect_failed
    (result : s.disconnectTip env world stage hash = (false, t)) : Standing spared origin t chain := by
  cases disconnectTip_cases result with
  | unknown missing => exact standing
  | unread nothing asked => exact standing.of_tree rfl
  | irreversible pindex found asked block kept set stopped =>
    exact standing.of_tree (recordUndoFailure_tree _ hash)

lemma Standing.failChild (exposed : ¬ spared hash) : Standing spared origin (s.modifyIndex hash failChild) chain := by
  refine ⟨standing.tip, standing.relabelled.trans (relabelled_modify exposed fun entry => ?_), ?_⟩
  · unfold CChainState.failChild
    split <;> rfl
  · refine standing.marked.modify hash (fun entry => ?_) (fun entry => ?_) fun entry data => ?_
    all_goals
      unfold CChainState.failChild
      split
    · rfl
    · rfl
    · rfl
    · exact validChain_raise (by decide) entry
    · exact data
    · exact haveData_raise _ entry (.inl data)

end

/-- The recorded chain is followed through a reorganisation between chains of the index. -/
lemma standing_tracking (env : Env) (world : World) (spared : Uint256 → Prop) (origin : CChainState) :
    Tracking env world (fun _ => True) (Standing spared origin)
      (fun chain => Path origin.mapBlockIndex chain ∧ chain.Nodup)
      (fun hash => ¬ spared hash) fun _ _ => True where
  shorten := fun isGood => ⟨isGood.1.2, (List.nodup_cons.mp isGood.2).2⟩
  logged := fun standing logged => standing.of_tree logged.tree
  ended := fun _ _ standing => standing.of_tree (walEnd_tree ..)
  stored := fun _ _ => trivial
  connect := fun _ standing isGood _ result => standing.connect isGood.1 result
  connect_failed := fun _ standing _ exposed _ result => standing.connect_failed exposed result
  disconnect := fun _ standing isGood result => standing.disconnect isGood.1 isGood.2 result
  disconnect_failed := fun _ standing _ result => standing.disconnect_failed result
  failChild := fun standing exposed => standing.failChild exposed

open List

structure Sides (t : BlockTree) (tip pindexNew : Uint256) (fork : Uint256) (off on : List Uint256) : Prop where
  old : (t.ancestry (some tip)).map Prod.fst = off ++ (t.ancestry (some fork)).map Prod.fst
  new : (t.ancestry (some pindexNew)).map Prod.fst = on ++ (t.ancestry (some fork)).map Prod.fst
  apart : ∀ hash ∈ (t.ancestry (some tip)).map Prod.fst, hash ∉ on

variable {tip pindexNew fork : Uint256} {off on : List Uint256}

lemma Plan.sides {t : BlockTree} (stepped : Stepped t.mapBlockIndex) (plan : Plan t tip pindexNew fork off on) :
    Sides t tip pindexNew fork off on := by
  obtain ⟨offEq, old⟩ := pathFrom_eq stepped plan.down
  obtain ⟨onEq, new⟩ := pathFrom_eq stepped plan.up
  refine ⟨old, new, ?_⟩
  intro hash inOld inOn
  rw [old] at inOld
  rcases mem_append.mp inOld with above | below
  · rw [offEq] at above
    rw [onEq] at inOn
    obtain ⟨a, inA, rfl⟩ := mem_map.mp above
    obtain ⟨b, inB, same⟩ := mem_map.mp inOn
    exact (findFork_meets stepped plan.forked).apart a inA b inB same.symm
  · have distinct := (descent_ancestry stepped (some pindexNew)).nodup
    rw [new] at distinct
    exact (nodup_append.mp distinct).2.2 hash inOn hash below rfl

lemma standing_start (active : Active s.toBlockTree) (spared : Uint256 → Prop) :
    Standing spared s s s.activeChain :=
  ⟨rfl, .refl _ _, active.marked⟩

lemma switchChains_standing (active : Active s.toBlockTree) {block : CBlock} {exit : Exit}
    (atTip : s.pindexTip = some tip)
    (sides : Sides s.toBlockTree tip pindexNew fork off on)
    (result : s.switchChains env world pindexNew block off on.reverse = (exit, t)) :
    exit = .rollbackFailed ∨ exit = .rolledBack ∧ Standing (fun hash => hash ∉ on) s t s.activeChain ∨
      exit = .reorganized ∧ ∃ reached, Standing (fun hash => hash ∉ on) s reached
        ((s.ancestry (some pindexNew)).map Prod.fst) ∧
        Tipped pindexNew reached t := by
  have chain : s.activeChain = off ++ (s.ancestry (some fork)).map Prod.fst := by rw [activeChain, atTip, sides.old]
  have start := standing_start active fun hash => hash ∉ on
  have goodOld := And.intro active.path active.nodup
  have goodNew := And.intro (path_ancestry active.stepped (some pindexNew))
    (descent_ancestry active.stepped (some pindexNew)).nodup
  rw [chain] at start goodOld
  rw [sides.new] at goodNew
  rw [chain, sides.new]
  have tracking := standing_tracking env world (fun hash => hash ∉ on) s
  rcases tracking.switchChains trivial start goodOld goodNew (fun _ inOn => not_not_intro inOn) trivial result with
    rolled | moved
  · rcases tracking.rolledBack trivial goodOld rolled with lost | restored
    · exact .inl lost
    · exact .inr (.inl restored)
  · exact .inr (.inr moved)

variable {block : CBlock} {exit : Exit}

/-- Every common part of the two chains lies below the fork that was found. -/
lemma Sides.above {t : BlockTree} (sides : Sides t tip pindexNew fork off on) {base left right : List Uint256}
    (old : (t.ancestry (some tip)).map Prod.fst = left ++ base)
    (new : (t.ancestry (some pindexNew)).map Prod.fst = right ++ base) :
    ∃ extra, (t.ancestry (some fork)).map Prod.fst = extra ++ base ∧ left = off ++ extra ∧ right = on ++ extra := by
  rcases append_eq_append_iff.mp (new.symm.trans sides.new) with ⟨missed, onEq, baseEq⟩ | ⟨extra, rightEq, forkEq⟩
  · obtain rfl : missed = [] := by
      refine eq_nil_iff_forall_not_mem.mpr fun hash inside => sides.apart hash ?_ ?_
      · rw [old, baseEq]
        exact mem_append_right _ (mem_append_left _ inside)
      · rw [onEq]
        exact mem_append_right _ inside
    rw [nil_append] at baseEq
    rw [append_nil] at onEq
    refine ⟨[], by rw [nil_append, baseEq], ?_, by rw [append_nil, onEq]⟩
    rw [append_nil]
    exact append_cancel_right (old.symm.trans (baseEq ▸ sides.old))
  · refine ⟨extra, forkEq, ?_, rightEq⟩
    apply append_cancel_right
    rw [← old, sides.old, forkEq, append_assoc]

/-- Where a call leaves an invariant that is followed through it, above the common part of the chains: with the old
blocks, in a rollback that may fail, with the new block on top, or below the old tip with nothing in its place. -/
inductive Arrives (env : Env) (world : World) (P : CChainState → List Uint256 → Prop) (good : List Uint256 → Prop)
    (off on : List Uint256) (pindexNew : Uint256) (exit : Exit) (t : CChainState) : Prop where
  | stayed (holds : P t off)
  | rolled (rollsBack : RollsBack env world P good off (exit, t))
  | moved {reached : CChainState} (holds : P reached (pindexNew :: on)) (tipped : Tipped pindexNew reached t)
  | bereft {below : CChainState} (holds : P below off.tail) (lost : exit = .replaceConnectFailed)
      (flagged : t = below.flagChainRebuild)

/-- The blocks of the old chain and of the new one above a common part. -/
structure Branches (s : CChainState) (pindexNew : Uint256) (off on base : List Uint256) : Prop where
  old : s.activeChain = off ++ base
  new : (s.ancestry (some pindexNew)).map Prod.fst = pindexNew :: on ++ base

section

variable {base : List Uint256} (branches : Branches s pindexNew off on base) (stepped : Stepped s.mapBlockIndex)

include branches stepped

lemma Branches.extends {entry : CBlockIndex} (found : s.mapBlockIndex.lookup pindexNew = some entry)
    (fits : entry.pprev = s.pindexTip) : on = off := by
  have new := branches.new
  rw [ancestry_of_lookup stepped found, fits, map_cons] at new
  exact (append_cancel_right (branches.old.symm.trans (cons.inj new).2)).symm

lemma Branches.siblings (siblings : Siblings s tip pindexNew) : off = tip :: on := by
  obtain ⟨atTip, entry, pindexTip, found, foundTip, parent⟩ := siblings
  have new := branches.new
  have old := branches.old
  rw [ancestry_of_lookup stepped found, parent, map_cons] at new
  rw [activeChain_of_tip stepped atTip foundTip, (cons.inj new).2] at old
  exact (append_cancel_right (show tip :: on ++ base = _ from old)).symm

end

/-- An invariant is followed through the whole call, from the active chain on. -/
lemma Tracking.activation {safe : Stage → Prop} {P : CChainState → List Uint256 → Prop} {good : List Uint256 → Prop}
    {exposed : Uint256 → Prop} {body : Uint256 → CBlock → Prop} (tracking : Tracking env world safe P good exposed body)
    (forward : safe .forward) (active : Active s.toBlockTree) (hasTip : s.pindexTip ≠ none) {base : List Uint256}
    (branches : Branches s pindexNew off on base) (start : P s off) (goodOld : good off)
    (goodNew : good (pindexNew :: on))
    (all : ∀ hash, exposed hash) (known : body pindexNew block)
    (activation : Activation env world s pindexNew block exit t) :
    Arrives env world P good off on pindexNew exit t := by
  have stepped := active.stepped
  cases activation with
  | idle quiet logged => exact .stayed (tracking.logged start logged)
  | refused entry found fits step =>
    cases branches.extends stepped found (fits.resolve_left hasTip)
    exact .stayed (tracking.connect_failed forward start goodNew (all _) known step)
  | extended entry found fits step tipped =>
    cases branches.extends stepped found (fits.resolve_left hasTip)
    exact .moved (tracking.connect forward start goodNew known step) tipped
  | stuck tip siblings logged step =>
    cases branches.siblings stepped siblings
    exact .stayed (tracking.disconnect_failed forward (tracking.logged start logged) goodOld step)
  | bereft tip siblings logged turned step =>
    cases branches.siblings stepped siblings
    have below := tracking.disconnect forward (tracking.logged start logged) goodOld turned
    exact .bereft (tracking.connect_failed forward below goodNew (all _) known step) rfl rfl
  | replaced tip siblings logged turned step tipped =>
    cases branches.siblings stepped siblings
    have below := tracking.disconnect forward (tracking.logged start logged) goodOld turned
    exact .moved (tracking.connect forward below goodNew known step) tipped
  | switched tip atTip turns plan logged outcome =>
    have old := branches.old
    rw [activeChain, atTip] at old
    obtain ⟨extra, -, rfl, new⟩ := (plan.sides stepped).above old branches.new
    rw [new] at goodNew
    rcases tracking.switchChains forward (tracking.logged start logged) goodOld goodNew
        (fun hash _ => all hash) known outcome with
      rolled | ⟨-, reached, moved, tipped⟩
    · exact .rolled rolled
    · exact .moved (new ▸ moved) tipped

/-- A rolled back reorganisation leaves the old chain recorded, and only entries of the other one flagged. -/
lemma Activation.rolledBack (active : Active s.toBlockTree)
    (activation : Activation env world s pindexNew block .rolledBack t) :
    ∃ on : List Uint256, (∀ hash ∈ s.activeChain, hash ∉ on) ∧ Standing (fun hash => hash ∉ on) s t s.activeChain := by
  cases activation with
  | idle quiet => cases quiet
  | switched tip atTip turns plan logged outcome =>
    rename_i begun fork off on
    have sides := plan.sides active.stepped
    refine ⟨on, ?_, ?_⟩
    · rw [activeChain, atTip]
      exact sides.apart
    · have activeBegun : Active begun.toBlockTree := logged.tree ▸ active
      rcases switchChains_standing activeBegun (logged.tree ▸ atTip)
        (logged.tree ▸ sides) outcome with lost | ⟨-, standing⟩ | moved
      · cases lost
      · exact ⟨standing.tip.trans (by rw [logged.tree]), logged.tree ▸ standing.relabelled,
          logged.tree ▸ standing.marked⟩
      · cases moved.1

lemma Standing.entry_eq (standing : Standing spared origin s chain) (before : Marked origin.mapBlockIndex chain)
    (on : hash ∈ chain) (isSpared : spared hash) : s.getBlockIndex hash = origin.getBlockIndex hash := by
  have same := (standing.relabelled hash).2 isSpared
  unfold getBlockIndex
  cases found : s.mapBlockIndex.lookup hash with
  | none =>
    rw [found] at same
    exact (Option.map_eq_none_iff.mp same.symm).symm
  | some entry =>
    rw [found] at same
    obtain ⟨old, at_, equal⟩ := Option.map_eq_some_iff.mp same.symm
    have now := standing.marked hash entry found
    have was := before hash old at_
    rw [at_, eq_of_core equal (was.next.trans now.next.symm) (was.valid.mpr on) (now.valid.mpr on)
      (was.data on) (now.data on)]

/-- When a reorganisation fails and its rollback runs to the end, the call returns false with the tip and
every entry of the old chain as before, no other block is marked as active, and the forward links from
genesis stay on the old chain. -/
theorem failed_reorg_leaves_old_chain (active : Active s.toBlockTree) (env : Env) (world : World) (now : Int)
    (pindexNew : Uint256) (block : CBlock)
    (failed : (s.activateBestChain env world now pindexNew block).1 = .rolledBack) :
    (s.activateBestChain env world now pindexNew block).1.returns = false ∧
    (s.activateBestChain env world now pindexNew block).2.pindexTip = s.pindexTip ∧
    (∀ hash ∈ s.activeChain,
      (s.activateBestChain env world now pindexNew block).2.getBlockIndex hash = s.getBlockIndex hash) ∧
    (∀ hash pindex, hash ∉ s.activeChain →
      (s.activateBestChain env world now pindexNew block).2.getBlockIndex hash = some pindex →
      pindex.validChain = false) ∧
    ∀ genesis ∈ s.activeChain.getLast?, ∀ hash,
      LeadsTo (s.activateBestChain env world now pindexNew block).2.toBlockTree genesis hash →
      hash ∈ s.activeChain := by
  cases result : s.activateBestChain env world now pindexNew block with
  | mk exit t =>
    rw [result] at failed
    obtain rfl : exit = .rolledBack := failed
    obtain ⟨on, apart, standing⟩ := (activateBestChain_cases result).rolledBack active
    refine ⟨rfl, standing.tip, ?_, ?_, ?_⟩
    · intro hash onChain
      exact standing.entry_eq active.marked onChain (apart hash onChain)
    · intro hash pindex off found
      have placed := standing.marked hash pindex found
      exact Bool.eq_false_iff.mpr fun marked => off (placed.valid.mp marked)
    · intro genesis last hash follows
      exact standing.marked.leadsTo (mem_of_getLast? last) follows

def forkReward (tag : UInt8) : CTransaction :=
  ⟨1, [⟨⟨.null, 0xFFFFFFFF⟩, [1, tag], 0xFFFFFFFF⟩], [⟨5000000000, [0x51]⟩], 0⟩

def forkEnv : Env where
  hashes := .ofTable
    [((forkReward 0).serialize, .ofNat 0x4588538f8803c825cd21d10cdc23dcad0b6d278cc77e47abd051c9c4b8b13da3),
     ((forkReward 1).serialize, .ofNat 0xa951c761ccf84b3da96d92fda7ade8f149a3a24abd4c1774705bd3f56280df33),
     ((forkReward 2).serialize, .ofNat 0xeb32c5092f7aa8a5834e79ed253bb7ae39ea722aadae070d94949501cecca549),
     ((forkReward 3).serialize, .ofNat 0x5909c65af65613844f7a87ddb1712b3bc801db4cdb7fbc4ce378e3aad85902c2),
     (undoPayload [], .ofNat 0xa29241d93a750b60ce816f60c61fbfd381d8f79699e527bef78b3cd885230a8b)]

def forkBlock (pprev : Option Uint256) (tag : UInt8) : CBlock := blockOf (pprev.getD .null) [forkReward tag]

def forkEntry (pprev pnext : Option Uint256) (nHeight : Int) (work tag : Nat) (nStatus : UInt32) : CBlockIndex where
  header := (forkBlock pprev (UInt8.ofNat tag)).toCBlockHeader
  pprev := pprev
  pnext := pnext
  nHeight := nHeight
  nChainWork := .ofNat work
  nStatus := nStatus
  nSequenceId := 0
  nVersion := 4
  address := tag

def forkGenesis : Uint256 := .ofNat 1
def forkTip : Uint256 := .ofNat 2
def forkRivalParent : Uint256 := .ofNat 3
def forkRival : Uint256 := .ofNat 4

def forkState : CChainState where
  mapBlockIndex := (((AList.insert forkGenesis (forkEntry none (some forkTip) 0 1 0 blockConnected) ∅).insert forkTip
    (forkEntry (some forkGenesis) none 1 2 1 blockConnected)).insert forkRivalParent
    (forkEntry (some forkGenesis) none 1 2 2 (blockHaveData ||| blockValidTransactions))).insert forkRival
    (forkEntry (some forkRivalParent) none 2 3 3 (blockHaveData ||| blockValidTransactions))
  pindexTip := some forkTip
  setBlockIndexCandidates := []
  utxoSet := ((emptySet.applyBlock forkEnv {} (forkBlock none 0) 0 forkGenesis).2.applyBlock forkEnv {}
    (forkBlock (some forkGenesis) 1) 1 forkTip).2
  blocks := (((AList.insert forkGenesis (forkBlock none 0) ∅).insert forkTip (forkBlock (some forkGenesis) 1)).insert
    forkRivalParent (forkBlock (some forkGenesis) 2)).insert forkRival (forkBlock (some forkRivalParent) 3)
  bestBlock := some forkTip
  reorgWAL := some ⟨false, ⟨.completed, .null, .null, .null, [], [], 0, 0⟩, none⟩
  consecutiveUtxoFailures := 0
  utxoNeedsRebuild := false
  lastUndoFailureHash := .null
  consecutiveUndoFailures := 0
  chainNeedsRebuild := false
  vdfTipAcceptTime := 0
  vdfTipAcceptHeight := 0
  events := []
  asked := 0

lemma forkState_active : Active forkState.toBlockTree := active_of_entries (by decide)

/-- Every check of a block beyond the first `passed` questions fails on the way forward. -/
def refusingWorld (passed : Nat) : World
  | .forward, .contextCheck _, n => decide (n < passed)
  | _, _, _ => true

/-- The first block of the longer branch is connected, the second is refused. -/
theorem failed_reorg_leaves_fork_tip :
    (forkState.activateBestChain forkEnv (refusingWorld 25) 0 forkRival (forkBlock (some forkRivalParent) 3)).1 =
      .rolledBack ∧
    (forkState.activateBestChain forkEnv (refusingWorld 25) 0 forkRival
      (forkBlock (some forkRivalParent) 3)).2.pindexTip =
      forkState.pindexTip ∧
    ∀ hash ∈ forkState.activeChain, (forkState.activateBestChain forkEnv (refusingWorld 25) 0 forkRival
        (forkBlock (some forkRivalParent) 3)).2.getBlockIndex hash = forkState.getBlockIndex hash := by
  have failed : (forkState.activateBestChain forkEnv (refusingWorld 25) 0 forkRival
      (forkBlock (some forkRivalParent) 3)).1 = .rolledBack := by rfl
  obtain ⟨-, tip, entries, -⟩ := failed_reorg_leaves_old_chain forkState_active forkEnv (refusingWorld 25) 0 forkRival
    (forkBlock (some forkRivalParent) 3) failed
  exact ⟨failed, tip, entries⟩

end Dilithion.CChainState
