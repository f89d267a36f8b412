import Dilithion.Chain.Lawful
import Dilithion.Node.ArrivalOrder

/-! Runs of a node that takes in lawful blocks. If every block sits on its parent when it is taken in, each
hash with one body, then in every state of the run the set is that of a chain of lawful blocks, and every
block that was connected was one. -/

namespace Dilithion

def CChainState.Charter.bodies (charter : CChainState.Charter) : Bodies where
  good hash block := block = charter.bodyOf hash
  queueable hash block := block = charter.bodyOf hash
  pooled _ := True

namespace Node

open Lib CChainState BlockTree

/-- What a step is asked to meet: no rebuild is pending, what it takes in is the body of its hash and sits on
its parent, and its environment is reliable. -/
structure Orderly (env : Env) (charter : Charter) (ctx : NodeContext) (node : Node) (action : Action) : Prop where
  running : node.chain.chainNeedsRebuild = false
  reliable : Reliable ctx.world
  body : ∀ hash block, node.TakesIn env ctx action hash block → block = charter.bodyOf hash
  placeable : ∀ hash block, node.TakesIn env ctx action hash block → node.chain.Placeable env charter hash block

/-- The set reflects the chain below the tip, or that below its parent with a rebuild pending; and the bodies
held outside the database are those of their hashes. -/
structure InOrder (env : Env) (charter : Charter) (node : Node) : Prop where
  chain : Sane env charter node.chain ∨ Lost env charter node.chain
  sourced : Sourced charter.bodies node

variable {env : Env} {ctx : NodeContext} {charter : Charter} {node next start : Node} {action : Action} {hash : Uint256}
  {block : CBlock} {s t : CChainState}

/-- Up to the activation the state is sane, and what is taken in can be placed. -/
def Ready (env : Env) (charter : Charter) (ctx : NodeContext) (node : Node) (action : Action)
    (s : CChainState) : Prop :=
  Sane env charter s ∧ ∀ hash block, node.TakesIn env ctx action hash block → s.Placeable env charter hash block

lemma Ready.revise (ready : Ready env charter ctx node action s) (revised : Revised charter s t) :
    Ready env charter ctx node action t :=
  ⟨ready.1.revise revised, fun hash block taken => (ready.2 hash block taken).revise revised ready.1.kept.stepped⟩

lemma ready_screening : Screening env (Ready env charter ctx node action) where
  looked outpoint ready := ready.revise (revised_looked charter _ env outpoint)
  failed hash ready := ready.revise (revised_failed charter _ hash)

lemma ready_handling (orderly : Orderly env charter ctx node action) (taken : node.TakesIn env ctx action hash block) :
    Handling env ctx charter.bodies (Ready env charter ctx node action)
      (fun s => Sane env charter s ∨ Lost env charter s)
      hash block where
  known := orderly.body hash block taken
  queues _ _ := orderly.body hash block taken
  pools _ := trivial
  left ready := .inl ready.1
  written ready := ready.revise (revised_written ready.1.kept (orderly.body hash block taken))
  indexed {s pParent tree} ready stored parent new added := by
    -- an entry always has its body, so the block is not indexed yet
    have unknown : s.getBlockIndex hash = none := by
      rcases new with unknown | ⟨earlier, readyEarlier, known, bare⟩
      · exact unknown
      · obtain ⟨pindex, found⟩ := Option.isSome_iff_exists.mp known
        cases (readyEarlier.1.kept.whole hash pindex found).symm.trans bare
    refine ⟨ready.1.index (ready.2 hash block taken) (orderly.body hash block taken) stored parent unknown added, ?_⟩
    intro other body also pParent' foundParent unknownNow
    obtain ⟨rfl, rfl⟩ := taken.unique also
    obtain ⟨-, -, atHash, -⟩ := addBlockIndex_lookup added
    cases atHash.symm.trans unknownNow
  activated {s other body} ready isBody known := by
    obtain ⟨entry, found⟩ := Option.isSome_iff_exists.mp known
    exact ready.1.activateBestChain orderly.reliable isBody found ctx.now

lemma InOrder.step (inOrder : node.InOrder env charter) (orderly : Orderly env charter ctx node action)
    (moved : node.step env ctx action = some next) : next.InOrder env charter := by
  have sane : Sane env charter node.chain := by
    rcases inOrder.chain with sane | lost
    · exact sane
    · cases orderly.running.symm.trans lost.rebuild
  obtain ⟨chain, sourced⟩ := step_ends ready_screening (fun ready => .inl ready.1)
    (show Ready env charter ctx node action node.chain from ⟨sane, orderly.placeable⟩) inOrder.sourced
    (fun hash block taken => ready_handling orderly taken) moved
  exact ⟨chain, sourced⟩

lemma InOrder.kept (inOrder : node.InOrder env charter) : KeepsCharter env charter node.chain :=
  inOrder.chain.elim Sane.kept Lost.kept

lemma inOrder_of_run (begin_ : start.InOrder env charter) (run : Run env (Orderly env charter) start node) :
    node.InOrder env charter := by
  induction run with
  | start => exact begin_
  | next earlier ctx action permitted moved ih => exact ih.step permitted moved

structure AtGenesis (env : Env) (charter : Charter) (node : Node) : Prop where
  known : ∃ pindex, node.chain.mapBlockIndex.lookup charter.genesis = some pindex
  alone : ∀ hash pindex, node.chain.mapBlockIndex.lookup hash = some pindex →
    hash = charter.genesis ∧ pindex.pprev = none ∧
    pindex.pnext = none ∧ pindex.nHeight = 0 ∧ pindex.validChain = true ∧ pindex.haveData = true
  tip : node.chain.pindexTip = some charter.genesis
  stored : node.chain.blocks.lookup charter.genesis = some (charter.bodyOf charter.genesis)
  blocks : ∀ hash block, node.chain.blocks.lookup hash = some block → block = charter.bodyOf hash
  applied : emptySet.applyBlock env {} (charter.bodyOf charter.genesis) 0 charter.genesis = (true, node.chain.utxoSet)
  placed : WellPlaced env emptySet.stored [] (charter.bodyOf charter.genesis) 0 charter.genesis
  events : node.chain.events = []
  queue : node.queue = []
  orphans : node.orphans = []
  activeFork : node.activeFork = none

namespace AtGenesis

variable (atGenesis : node.AtGenesis env charter)

include atGenesis

lemma stepped : BlockTree.Stepped node.chain.mapBlockIndex := by
  intro hash pindex parent found link
  obtain ⟨-, root, -⟩ := atGenesis.alone hash pindex found
  cases root.symm.trans link

lemma ancestry : (node.chain.ancestry (some charter.genesis)).map Prod.fst = [charter.genesis] := by
  obtain ⟨pindex, found⟩ := atGenesis.known
  obtain ⟨-, root, -⟩ := atGenesis.alone _ pindex found
  rw [BlockTree.ancestry_of_lookup atGenesis.stepped found, root]
  simp [BlockTree.ancestry]

lemma activeChain : node.chain.activeChain = [charter.genesis] := by
  rw [BlockTree.activeChain, atGenesis.tip, atGenesis.ancestry]

lemma lawful : node.chain.Lawful env charter [charter.genesis] := by
  refine ⟨trivial, fun pindex block found body _ => ⟨?_, fun notFirst => absurd rfl notFirst⟩⟩
  obtain ⟨-, -, -, height, -⟩ := atGenesis.alone _ pindex found
  cases atGenesis.stored.symm.trans body
  rw [height]
  exact atGenesis.placed

lemma accepted : node.chain.Accepted env [charter.genesis] := by
  obtain ⟨pindex, found⟩ := atGenesis.known
  obtain ⟨-, -, -, height, -⟩ := atGenesis.alone _ pindex found
  refine ⟨trivial, pindex, _, found, atGenesis.stored, ?_⟩
  rw [height]
  exact congrArg Prod.fst atGenesis.applied

lemma replay : node.chain.replay env [charter.genesis] = node.chain.utxoSet := by
  obtain ⟨pindex, found⟩ := atGenesis.known
  obtain ⟨-, -, -, height, -⟩ := atGenesis.alone _ pindex found
  rw [replay_cons found atGenesis.stored, height]
  exact congrArg Prod.snd atGenesis.applied

lemma kept : CChainState.KeepsCharter env charter node.chain where
  stepped := atGenesis.stepped
  root hash pindex found _ := by
    obtain ⟨isGenesis, -, -, height, -⟩ := atGenesis.alone hash pindex found
    exact ⟨isGenesis, height⟩
  whole hash pindex found := by
    obtain ⟨rfl, -⟩ := atGenesis.alone hash pindex found
    exact atGenesis.stored
  stored := atGenesis.blocks
  lawful hash pindex found := by
    obtain ⟨rfl, -⟩ := atGenesis.alone hash pindex found
    rw [atGenesis.ancestry]
    exact atGenesis.lawful
  connected hash height block member := by
    rw [atGenesis.events] at member
    cases member

lemma sane : Sane env charter node.chain where
  kept := atGenesis.kept
  active := by
    refine ⟨atGenesis.stepped, fun hash pindex found => ?_⟩
    obtain ⟨rfl, -, last, -, valid, data⟩ := atGenesis.alone hash pindex found
    rw [atGenesis.activeChain]
    exact ⟨by rw [last]; simp [successor], by simp [valid], fun _ => data⟩
  tip := by
    obtain ⟨pindex, found⟩ := atGenesis.known
    exact ⟨charter.genesis, pindex, atGenesis.tip, found⟩
  reflects := by
    have coherent := atGenesis.lawful.coherent atGenesis.accepted
    rw [atGenesis.activeChain]
    refine ⟨?_, atGenesis.accepted, ?_⟩
    · rw [← atGenesis.ancestry]
      exact path_ancestry atGenesis.stepped _
    · rw [← atGenesis.replay]
      exact .refl coherent _

lemma inOrder : node.InOrder env charter where
  chain := .inl atGenesis.sane
  sourced :=
    { queue := by rw [atGenesis.queue]; nofun
      fork := by rw [atGenesis.activeFork]; nofun
      orphans := by rw [atGenesis.orphans]; nofun }

end AtGenesis

/-- The chain and the bodies without a law. -/
def freeCharter (genesis : Uint256) (bodyOf : Uint256 → CBlock) : Charter := ⟨genesis, bodyOf, fun _ _ _ => True⟩

/-- An orderly step, no law asked, in which each block that can become indexed comes by the `route`. -/
structure Routed (env : Env) (genesis : Uint256) (bodyOf : Uint256 → CBlock)
    (route : NodeContext → Node → Action → Uint256 → CBlock → Prop) (ctx : NodeContext) (node : Node)
    (action : Action) : Prop where
  orderly : Orderly env (freeCharter genesis bodyOf) ctx node action
  routed : ∀ hash block pParent, node.TakesIn env ctx action hash block →
    node.chain.mapBlockIndex.lookup block.hashPrevBlock = some pParent → node.chain.mapBlockIndex.lookup hash = none →
      route ctx node action hash block

section

variable {genesis : Uint256} {bodyOf : Uint256 → CBlock} {law : UTXOLedger → CBlock → Int → Prop}
  {route : NodeContext → Node → Action → Uint256 → CBlock → Prop}

lemma AtGenesis.under (atGenesis : node.AtGenesis env (freeCharter genesis bodyOf)) :
    node.AtGenesis env ⟨genesis, bodyOf, law⟩ :=
  ⟨atGenesis.known, atGenesis.alone, atGenesis.tip, atGenesis.stored, atGenesis.blocks,
    atGenesis.applied, atGenesis.placed,
    atGenesis.events, atGenesis.queue, atGenesis.orphans, atGenesis.activeFork⟩

/-- The route gives the law: in a sane state, a block that comes by it is lawful where it is well placed. -/
def Gives (env : Env) (charter : Charter) (route : NodeContext → Node → Action → Uint256 → CBlock → Prop) : Prop :=
  ∀ {ctx node action hash block pParent}, Sane env charter node.chain → node.TakesIn env ctx action hash block →
    node.chain.mapBlockIndex.lookup block.hashPrevBlock = some pParent → route ctx node action hash block →
    WellPlaced env (node.chain.replay env ((node.chain.ancestry (some block.hashPrevBlock)).map Prod.fst)).stored
      ((node.chain.ancestry (some block.hashPrevBlock)).map Prod.fst) block (UInt32.ofInt (pParent.nHeight + 1)) hash →
    charter.law (node.chain.replay env ((node.chain.ancestry (some block.hashPrevBlock)).map Prod.fst)).stored block
      (pParent.nHeight + 1)

lemma Routed.orderly_under (gives : Gives env ⟨genesis, bodyOf, law⟩ route)
    (inOrder : node.InOrder env ⟨genesis, bodyOf, law⟩)
    (routed : Routed env genesis bodyOf route ctx node action) :
    Orderly env ⟨genesis, bodyOf, law⟩ ctx node action := by
  obtain ⟨⟨running, reliable, body, placeable⟩, comes⟩ := routed
  refine ⟨running, reliable, body, fun hash block taken pParent parent unknown accepted => ?_⟩
  obtain ⟨placed, -⟩ := placeable hash block taken pParent parent unknown accepted
  have sane : Sane env ⟨genesis, bodyOf, law⟩ node.chain := inOrder.chain.resolve_right fun lost => by
    cases running.symm.trans lost.rebuild
  exact ⟨placed, fun _ => gives sane taken parent (comes hash block pParent taken parent unknown) placed⟩

/-- Where the route gives the law, a run of routed steps stays in order under it. -/
lemma Run.inOrder (gives : Gives env ⟨genesis, bodyOf, law⟩ route)
    (atGenesis : start.AtGenesis env (freeCharter genesis bodyOf))
    (run : Run env (Routed env genesis bodyOf route) start node) : node.InOrder env ⟨genesis, bodyOf, law⟩ := by
  induction run with
  | start => exact atGenesis.under.inOrder
  | next earlier ctx action permitted moved ih => exact ih.step (permitted.orderly_under gives ih) moved

end

section

variable (atGenesis : start.AtGenesis env charter) (run : Run env (Orderly env charter) start node)

include atGenesis run

theorem consistent_of_run : Consistent env node.chain ∨ OneBehind env node.chain := by
  rcases (inOrder_of_run atGenesis.inOrder run).chain with sane | lost
  · exact .inl ⟨sane.reflects.accepted, sane.reflects.view sane.kept⟩
  · exact .inr ⟨lost.rebuild, lost.reflects.accepted, lost.reflects.view lost.kept⟩

/-- Whatever law the blocks keep where they are taken in, each keeps it above the ledger of its ancestors when
it is connected, on whichever branch. -/
theorem law_of_run {height : Int} (connected : ChainEvent.blockConnected hash height block ∈ node.chain.events)
    (above : 0 < height) : ∃ below, Path node.chain.mapBlockIndex (hash :: below) ∧ (below.length : Int) = height ∧
      node.chain.Accepted env (hash :: below) ∧ charter.law (node.chain.replay env below).stored block height := by
  have inOrder := inOrder_of_run atGenesis.inOrder run
  obtain ⟨below, -, path, length, accepted, -, law⟩ := inOrder.kept.law_of_connected connected above
  exact ⟨below, path, length, accepted, law⟩

end

end Node

open Lib Lib.Ledger CChainState

lemma startNode_atGenesis {env : Env} {genesis : CBlock} {hash : Uint256} {bodyOf : Uint256 → CBlock}
    (body : bodyOf hash = genesis)
    (applied : (emptySet.applyBlock env {} genesis 0 hash).1 = true)
    (placed : placesWell env emptySet.stored [] genesis 0 hash = true)
    (law : UTXOLedger → CBlock → Int → Prop) :
    (startNode env genesis hash).AtGenesis env ⟨hash, bodyOf, law⟩ := by
  have status : (genesisIndexOf genesis).validChain = true ∧ (genesisIndexOf genesis).haveData = true := by
    have both (mask : UInt32) : (genesisIndexOf genesis).nStatus &&& mask =
        (CBlockIndex.blockValidChain ||| CBlockIndex.blockHaveData) &&& mask := rfl
    exact ⟨decide_eq_true (by rw [both]; decide), decide_eq_true (by rw [both]; decide)⟩
  subst body
  refine ⟨⟨genesisIndexOf _, AList.mem_lookup_iff.mpr (List.mem_singleton.mpr rfl)⟩, fun other pindex found => ?_, rfl,
    AList.mem_lookup_iff.mpr (List.mem_singleton.mpr rfl), fun other block found => ?_, Prod.fst_eq_iff.mp applied,
    wellPlaced_of_test placed, rfl, rfl, rfl, rfl⟩
  · cases List.mem_singleton.mp (AList.mem_lookup_iff.mp found)
    exact ⟨rfl, rfl, rfl, rfl, status⟩
  · cases List.mem_singleton.mp (AList.mem_lookup_iff.mp found)
    rfl

/-- An orderly step as a test, with one for the law. -/
def orderly (env : Env) (bodyOf : Uint256 → CBlock) (lawful : CBlock → Bool) (node : Node) (action : Node.Action) :
    Bool :=
  !node.chain.chainNeedsRebuild && (node.subject env openContext action).all fun (hash, block, _) =>
    decide (block = bodyOf hash) && lawful block &&
        (node.chain.mapBlockIndex.lookup block.hashPrevBlock).all fun pParent =>
      let below := (node.chain.ancestry (some block.hashPrevBlock)).map Prod.fst
      (node.chain.mapBlockIndex.lookup hash).isSome ||
        placesWell env (node.chain.replay env below).stored below block (UInt32.ofInt (pParent.nHeight + 1)) hash

lemma orderly_sound {env : Env} {genesis : Uint256} {bodyOf : Uint256 → CBlock}
    {lawful : CBlock → Bool} {law : CBlock → Prop}
    (lawful_iff : ∀ block, lawful block = true → law block) (node : Node) (action : Node.Action)
    (test : orderly env bodyOf lawful node action = true) :
    Node.Orderly env ⟨genesis, bodyOf, fun _ block _ => law block⟩ openContext node action := by
  obtain ⟨running, test⟩ := Bool.and_eq_true_iff.mp test
  have each {hash : Uint256} {block : CBlock} (taken : node.TakesIn env openContext action hash block) :
      (block = bodyOf hash ∧ lawful block = true) ∧
        ∀ pParent, node.chain.mapBlockIndex.lookup block.hashPrevBlock = some pParent →
        node.chain.mapBlockIndex.lookup hash = none →
          WellPlaced env (node.chain.replay env ((node.chain.ancestry (some block.hashPrevBlock)).map Prod.fst)).stored
            ((node.chain.ancestry (some block.hashPrevBlock)).map Prod.fst) block
                (UInt32.ofInt (pParent.nHeight + 1)) hash := by
    obtain ⟨screened, isSubject, -⟩ := taken
    simp only [isSubject, Option.all_some, Bool.and_eq_true, decide_eq_true_eq] at test
    refine ⟨test.1, fun pParent found unknown => ?_⟩
    have placed := test.2
    simp only [found, unknown, Option.all_some, Option.isSome_none, Bool.false_or] at placed
    exact wellPlaced_of_test placed
  refine ⟨by simpa using running, ⟨fun _ _ => rfl, fun _ => rfl, fun _ _ => rfl⟩,
    fun hash block taken => (each taken).1.1,
    fun hash block taken pParent found unknown _ => ?_⟩
  exact ⟨(each taken).2 pParent found unknown, fun _ => lawful_iff block (each taken).1.2⟩

def bodyCharter : Charter := ⟨genesisBlockHash, orphanBodies, fun _ block _ => PassesBody orphanEnv.hashes block⟩

lemma rivals_atGenesis : (genesisNode orphanEnv).AtGenesis orphanEnv bodyCharter :=
  startNode_atGenesis (by decide +kernel) (by decide +kernel) (by decide +kernel) _

/-- A block is connected, two others overtake it, and it is disconnected for them. -/
lemma rivals_run : ∃ node, Node.Run orphanEnv (Node.Orderly orphanEnv bodyCharter) (genesisNode orphanEnv) node ∧
    ChainEvent.blockDisconnected rivalBlockHash 1 rivalBlock ∈ node.chain.events ∧
    ChainEvent.blockConnected secondBlockHash 2 secondBlock ∈ node.chain.events := by
  have ends : ((genesisNode orphanEnv).follow orphanEnv openContext
      (orderly orphanEnv orphanBodies fun block => decide (BlockProcessing.checkBody orphanEnv.hashes block = .ok ()))
      [.deliver 0 rivalBlock none, .deliver 0 firstBlock none, .deliver 0 secondBlock none]).any (fun node =>
        decide (ChainEvent.blockDisconnected rivalBlockHash 1 rivalBlock ∈ node.chain.events ∧
          ChainEvent.blockConnected secondBlockHash 2 secondBlock ∈ node.chain.events)) = true := by decide +kernel
  obtain ⟨node, followed, holds⟩ := (Option.any_eq_true _ _).mp ends
  refine ⟨node, Node.Run.start.follow (orderly_sound fun block passes => ?_) followed, of_decide_eq_true holds⟩
  exact (passesBody_iff ..).mpr (of_decide_eq_true passes)

theorem consistent_after_reorganisation : ∃ node : Node,
    ChainEvent.blockDisconnected rivalBlockHash 1 rivalBlock ∈ node.chain.events ∧
    (Consistent orphanEnv node.chain ∨ OneBehind orphanEnv node.chain) := by
  obtain ⟨node, run, disconnected, -⟩ := rivals_run
  exact ⟨node, disconnected, Node.consistent_of_run rivals_atGenesis run⟩

theorem law_kept_by_second_block : ∃ (node : Node) (below : List Uint256),
    ChainEvent.blockConnected secondBlockHash 2 secondBlock ∈ node.chain.events ∧
    node.chain.Accepted orphanEnv (secondBlockHash :: below) ∧ PassesBody orphanEnv.hashes secondBlock := by
  obtain ⟨node, run, -, connected⟩ := rivals_run
  obtain ⟨below, -, -, accepted, law⟩ := Node.law_of_run rivals_atGenesis run connected (by decide)
  exact ⟨node, below, connected, accepted, law⟩

end Dilithion
