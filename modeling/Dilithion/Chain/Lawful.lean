import Dilithion.Chain.Consistency
import Dilithion.Chain.Marking

/-! Chains whose blocks keep a law. The law is about a block and the ledger it is applied to, and that ledger
is a matter of the chain below the block alone; so it can be asked for when the block is indexed, on
whichever branch, and it still holds when the block is connected. -/

namespace Dilithion.CChainState

open Lib Lib.Ledger BlockTree CBlockIndex AList

/-- What a chain is judged by: its first block, the body that each hash stands for, and a law for a block
at a height above a ledger. -/
structure Charter where
  genesis : Uint256
  bodyOf : Uint256 → CBlock
  law : UTXOLedger → CBlock → Int → Prop

/-- If the chain `below` is accepted, the block is well placed on it and, unless it is the first, lawful. -/
def Sits (env : Env) (charter : Charter) (s : CChainState) (below : List Uint256) (hash : Uint256) (block : CBlock)
    (height : Int) : Prop :=
  s.Accepted env below → WellPlaced env (s.replay env below).stored below block (UInt32.ofInt height) hash ∧
    (below ≠ [] → charter.law (s.replay env below).stored block height)

def Lawful (env : Env) (charter : Charter) (s : CChainState) : List Uint256 → Prop
  | [] => True
  | hash :: rest => s.Lawful env charter rest ∧ ∀ pindex block, s.mapBlockIndex.lookup hash = some pindex →
      s.blocks.lookup hash = some block → s.Sits env charter rest hash block pindex.nHeight

variable {env : Env} {world : World} {charter : Charter} {origin s t : CChainState}
  {chain below : List Uint256} {hash : Uint256}
  {block : CBlock} {height : Int}

lemma Lawful.fits (lawful : s.Lawful env charter chain) : s.Fits env [] chain := by
  induction chain with
  | nil => exact fun _ => emptySet_coherent
  | cons hash rest ih =>
    obtain ⟨lawfulRest, sits⟩ := lawful
    refine ⟨ih lawfulRest, ?_⟩
    rw [List.append_nil]
    exact fun accepted pindex block found body => (sits pindex block found body accepted).1

lemma Lawful.coherent (lawful : s.Lawful env charter chain) (accepted : s.Accepted env chain) :
    (s.replay env chain).Coherent := by
  have coherent := lawful.fits.coherent
  rw [List.append_nil] at coherent
  exact coherent accepted

structure Retains (s t : CChainState) : Prop where
  entries : Retained s.mapBlockIndex t.mapBlockIndex
  bodies : ∀ hash pindex, s.mapBlockIndex.lookup hash = some pindex → t.blocks.lookup hash = s.blocks.lookup hash

lemma Retains.replay (retains : Retains s t) (env : Env) (path : Path s.mapBlockIndex chain) :
    t.replay env chain = s.replay env chain ∧ (t.Accepted env chain ↔ s.Accepted env chain) := by
  induction chain with
  | nil => exact ⟨rfl, Iff.rfl⟩
  | cons hash rest ih =>
    obtain ⟨⟨old, found, -⟩, path⟩ := path
    obtain ⟨new, at_, same⟩ := retains.entries hash old found
    obtain ⟨sameReplay, sameAccepted⟩ := ih path
    constructor
    · rw [CChainState.replay, CChainState.replay, found, at_, retains.bodies hash old found, sameReplay]
      cases s.blocks.lookup hash with
      | none => rfl
      | some block => simp only [nHeight_of_bare same]
    · rw [Accepted, Accepted, sameAccepted, sameReplay, retains.bodies hash old found, found, at_]
      have height := nHeight_of_bare same
      refine and_congr_right fun _ => ⟨?_, ?_⟩
      · rintro ⟨_, block, ⟨⟩, body, taken⟩
        exact ⟨old, block, rfl, body, height ▸ taken⟩
      · rintro ⟨_, block, ⟨⟩, body, taken⟩
        exact ⟨new, block, rfl, body, height ▸ taken⟩

lemma Retains.sits (retains : Retains s t) (path : Path s.mapBlockIndex below)
    (sits : s.Sits env charter below hash block height) :
    t.Sits env charter below hash block height := by
  obtain ⟨sameReplay, sameAccepted⟩ := retains.replay env path
  intro accepted
  rw [sameReplay]
  exact sits (sameAccepted.mp accepted)

lemma Retains.lawful (retains : Retains s t) (path : Path s.mapBlockIndex chain) (lawful : s.Lawful env charter chain) :
    t.Lawful env charter chain := by
  induction chain with
  | nil => trivial
  | cons hash rest ih =>
    obtain ⟨⟨old, found, -⟩, path⟩ := path
    obtain ⟨new, at_, same⟩ := retains.entries hash old found
    refine ⟨ih path lawful.1, fun pindex block foundNow body => ?_⟩
    cases at_.symm.trans foundNow
    rw [retains.bodies hash old found] at body
    rw [nHeight_of_bare same]
    exact retains.sits path (lawful.2 old block found body)

/-- The block is indexed at this height with this body, and the chain up to it is accepted. -/
def Stood (env : Env) (s : CChainState) (hash : Uint256) (height : Int) (block : CBlock) : Prop :=
  ∃ pindex, s.mapBlockIndex.lookup hash = some pindex ∧ pindex.nHeight = height ∧ s.blocks.lookup hash = some block ∧
    s.Accepted env ((s.ancestry (some hash)).map Prod.fst)

lemma Retains.stood (retains : Retains s t) (steppedBefore : Stepped s.mapBlockIndex)
    (stepped : Stepped t.mapBlockIndex)
    (stood : Stood env s hash height block) : Stood env t hash height block := by
  obtain ⟨old, found, rfl, body, accepted⟩ := stood
  obtain ⟨new, at_, same⟩ := retains.entries hash old found
  refine ⟨new, at_, nHeight_of_bare same, (retains.bodies hash old found).trans body, ?_⟩
  rw [retains.entries.ancestry_eq steppedBefore stepped found, (retains.replay env (path_ancestry steppedBefore _)).2]
  exact accepted

/-- The index is a tree over the genesis block; every indexed block has its body and sits where it is; and
every block that was connected stood on an accepted chain. -/
structure KeepsCharter (env : Env) (charter : Charter) (s : CChainState) : Prop where
  stepped : Stepped s.mapBlockIndex
  root : ∀ hash pindex, s.mapBlockIndex.lookup hash = some pindex → pindex.pprev = none →
    hash = charter.genesis ∧ pindex.nHeight = 0
  whole : ∀ hash pindex, s.mapBlockIndex.lookup hash = some pindex → s.blocks.lookup hash = some (charter.bodyOf hash)
  stored : ∀ hash block, s.blocks.lookup hash = some block → block = charter.bodyOf hash
  lawful : ∀ hash pindex, s.mapBlockIndex.lookup hash = some pindex →
    s.Lawful env charter ((s.ancestry (some hash)).map Prod.fst)
  connected : ∀ hash height block, ChainEvent.blockConnected hash height block ∈ s.events →
    Stood env s hash height block

section

variable (kept : KeepsCharter env charter s)

include kept

lemma KeepsCharter.nHeight_eq (path : Path s.mapBlockIndex (hash :: chain)) {pindex : CBlockIndex}
    (found : s.mapBlockIndex.lookup hash = some pindex) : pindex.nHeight = chain.length := by
  induction chain generalizing hash pindex with
  | nil =>
    obtain ⟨⟨entry, at_, link⟩, -⟩ := path
    cases found.symm.trans at_
    exact (kept.root hash pindex found link).2
  | cons parent rest ih =>
    obtain ⟨⟨entry, at_, link⟩, below⟩ := path
    cases found.symm.trans at_
    obtain ⟨above, atParent, height⟩ := kept.stepped hash pindex parent found link
    rw [height, ih below atParent]
    rfl

lemma KeepsCharter.lawful_of_path (path : Path s.mapBlockIndex chain) : s.Lawful env charter chain := by
  cases chain with
  | nil => trivial
  | cons hash rest =>
    obtain ⟨pindex, found, -⟩ := path.1
    have same := path.ancestry_eq kept.stepped
    exact same ▸ kept.lawful hash pindex found

/-- A block that was connected is lawful above the ledger of its ancestors, unless it is the first. -/
lemma KeepsCharter.law_of_connected
    (connected : ChainEvent.blockConnected hash height block ∈ s.events) (above : 0 < height) :
    ∃ below spent, Path s.mapBlockIndex (hash :: below) ∧ (below.length : Int) = height ∧
    s.Accepted env (hash :: below) ∧
      spentRecords (s.replay env below).stored (s.replay env below).stored
        (blockEvents env.hashes (UInt32.ofInt height) block) = some spent ∧
      charter.law (s.replay env below).stored block height := by
  obtain ⟨pindex, found, rfl, body, accepted⟩ := kept.connected hash height block connected
  have path := path_ancestry kept.stepped (some hash)
  rw [ancestry_of_lookup kept.stepped found] at path accepted
  have lawful := kept.lawful_of_path path
  have length := kept.nHeight_eq path found
  obtain ⟨acceptedBelow, entry, found', at_, bodyThere, taken⟩ := id accepted
  cases found.symm.trans at_
  cases body.symm.trans bodyThere
  obtain ⟨placed, law⟩ := lawful.2 pindex block found body acceptedBelow
  have coherent := lawful.1.coherent acceptedBelow
  obtain ⟨spent, records, -⟩ := placed.applied coherent (Prod.fst_eq_iff.mp taken)
  refine ⟨_, spent, path, length.symm, accepted, records, law fun first => ?_⟩
  rw [length, first] at above
  exact absurd above (by decide)

/-- A state that retains the blocks of a kept one, and whose further blocks are in order. -/
lemma KeepsCharter.of_retains (retains : Retains s t) (stepped : Stepped t.mapBlockIndex)
    (stored : ∀ hash block, t.blocks.lookup hash = some block → block = charter.bodyOf hash)
    (fresh : ∀ hash pindex, t.mapBlockIndex.lookup hash = some pindex → s.mapBlockIndex.lookup hash = none →
      pindex.pprev ≠ none ∧ t.blocks.lookup hash = some (charter.bodyOf hash) ∧
        t.Lawful env charter ((t.ancestry (some hash)).map Prod.fst))
    (events : ∀ hash height block, ChainEvent.blockConnected hash height block ∈ t.events →
      ChainEvent.blockConnected hash height block ∈ s.events ∨ Stood env s hash height block) :
      KeepsCharter env charter t := by
  have known : ∀ {hash pindex}, t.mapBlockIndex.lookup hash = some pindex → s.mapBlockIndex.lookup hash = none ∨
      ∃ old, s.mapBlockIndex.lookup hash = some old ∧ pindex.bare = old.bare := by
    intro hash pindex found
    cases before : s.mapBlockIndex.lookup hash with
    | none => exact .inl rfl
    | some old =>
      obtain ⟨new, at_, same⟩ := retains.entries hash old before
      cases at_.symm.trans found
      exact .inr ⟨old, rfl, same⟩
  refine ⟨stepped, fun hash pindex found alone => ?_, fun hash pindex found => ?_, stored, fun hash pindex found => ?_,
    fun hash height block member => ?_⟩
  · rcases known found with new | ⟨old, before, same⟩
    · exact absurd alone (fresh hash pindex found new).1
    · rw [nHeight_of_bare same]
      exact kept.root hash old before (pprev_of_bare same ▸ alone)
  · rcases known found with new | ⟨old, before, -⟩
    · exact (fresh hash pindex found new).2.1
    · rw [retains.bodies hash old before, kept.whole hash old before]
  · rcases known found with new | ⟨old, before, -⟩
    · exact (fresh hash pindex found new).2.2
    · rw [retains.entries.ancestry_eq kept.stepped stepped before]
      exact retains.lawful (path_ancestry kept.stepped _) (kept.lawful hash old before)
  · rcases events hash height block member with old | stood
    · exact retains.stood kept.stepped stepped (kept.connected hash height block old)
    · exact retains.stood kept.stepped stepped stood

end

/-- The set answers as the blocks of the chain applied one after the other, and holds their undo records. -/
structure Reflects (env : Env) (s : CChainState) (chain : List Uint256) : Prop where
  path : Path s.mapBlockIndex chain
  accepted : s.Accepted env chain
  mirrors : Mirrors chain s.utxoSet (s.replay env chain)

lemma Reflects.of_retains (reflects : Reflects env s chain) (retains : Retains s t)
    (mirrors : Mirrors chain t.utxoSet (s.replay env chain)) : Reflects env t chain := by
  obtain ⟨replay, accepted⟩ := retains.replay env reflects.path
  exact ⟨retains.entries.path reflects.path, accepted.mpr reflects.accepted, replay ▸ mirrors⟩

lemma Reflects.view (reflects : Reflects env s chain) (kept : KeepsCharter env charter s) (outpoint : COutPoint) :
    s.utxoSet.view env outpoint = (s.replay env chain).view env outpoint := by
  have coherent := (kept.lawful_of_path reflects.path).coherent reflects.accepted
  rw [reflects.mirrors.coherent.view_eq, coherent.view_eq, reflects.mirrors.stored]

/-- A rebuild is recorded, and the set is that of the active chain without its last block. -/
def OneBehind (env : Env) (s : CChainState) : Prop :=
  s.chainNeedsRebuild = true ∧ s.Accepted env s.activeChain.tail ∧
    ∀ outpoint, s.utxoSet.view env outpoint = (s.replay env s.activeChain.tail).view env outpoint

structure Sane (env : Env) (charter : Charter) (s : CChainState) : Prop where
  kept : KeepsCharter env charter s
  active : Active s.toBlockTree
  tip : ∃ tip pindexTip, s.pindexTip = some tip ∧ s.mapBlockIndex.lookup tip = some pindexTip
  reflects : Reflects env s s.activeChain

structure Lost (env : Env) (charter : Charter) (s : CChainState) : Prop where
  kept : KeepsCharter env charter s
  rebuild : s.chainNeedsRebuild = true
  tip : ∃ tip pindexTip, s.pindexTip = some tip ∧ s.mapBlockIndex.lookup tip = some pindexTip
  reflects : Reflects env s s.activeChain.tail

lemma Sane.activeChain_eq (sane : Sane env charter s) (retains : Retains s t) (stepped : Stepped t.mapBlockIndex)
    (tip : t.pindexTip = s.pindexTip) : t.activeChain = s.activeChain := by
  refine retains.entries.activeChain_eq sane.kept.stepped stepped tip fun hash atTip => ?_
  obtain ⟨tip, pindexTip, isTip, found⟩ := sane.tip
  cases isTip.symm.trans atTip
  exact ⟨pindexTip, found⟩

/-- If the parent of the block is indexed and the block is not, the block sits on its parent. -/
def Placeable (env : Env) (charter : Charter) (s : CChainState) (hash : Uint256) (block : CBlock) : Prop :=
  ∀ pParent, s.mapBlockIndex.lookup block.hashPrevBlock = some pParent → s.mapBlockIndex.lookup hash = none →
    s.Sits env charter ((s.ancestry (some block.hashPrevBlock)).map Prod.fst) hash block (pParent.nHeight + 1)

/-- The same blocks are indexed, with the same bodies, and the set answers as before. -/
structure Revised (charter : Charter) (s t : CChainState) : Prop where
  retains : Retains s t
  keys : ∀ hash pindex, t.mapBlockIndex.lookup hash = some pindex →
    ∃ old, s.mapBlockIndex.lookup hash = some old ∧ pindex.bare = old.bare
  marked : ∀ chain, Marked s.mapBlockIndex chain → Marked t.mapBlockIndex chain
  tip : t.pindexTip = s.pindexTip
  stored : ∀ hash block, t.blocks.lookup hash = some block → s.blocks.lookup hash = some block ∨
    block = charter.bodyOf hash
  events : t.events = s.events
  mirrors : ∀ chain other, Mirrors chain s.utxoSet other → Mirrors chain t.utxoSet other

lemma Revised.stepped (revised : Revised charter s t) (steppedBefore : Stepped s.mapBlockIndex) :
    Stepped t.mapBlockIndex := by
  intro hash pindex parent found link
  obtain ⟨old, before, same⟩ := revised.keys hash pindex found
  obtain ⟨above, atParent, height⟩ := steppedBefore hash old parent before (pprev_of_bare same ▸ link)
  obtain ⟨new, atNew, sameParent⟩ := revised.retains.entries parent above atParent
  exact ⟨new, atNew, by rw [nHeight_of_bare same, nHeight_of_bare sameParent, height]⟩

lemma Sane.revise (sane : Sane env charter s) (revised : Revised charter s t) : Sane env charter t := by
  have stepped := revised.stepped sane.kept.stepped
  have chain := sane.activeChain_eq revised.retains stepped revised.tip
  refine ⟨sane.kept.of_retains revised.retains stepped (fun hash block body => ?_) (fun hash pindex found new => ?_)
    (fun hash height block member => .inl (revised.events ▸ member)), ⟨stepped, ?_⟩, ?_, ?_⟩
  · rcases revised.stored hash block body with old | isBody
    · exact sane.kept.stored hash block old
    · exact isBody
  · obtain ⟨old, before, -⟩ := revised.keys hash pindex found
    cases before.symm.trans new
  · rw [chain]
    exact revised.marked _ sane.active.marked
  · obtain ⟨tip, pindexTip, isTip, found⟩ := sane.tip
    obtain ⟨new, atNew, -⟩ := revised.retains.entries tip pindexTip found
    exact ⟨tip, new, revised.tip.trans isTip, atNew⟩
  · rw [chain]
    exact sane.reflects.of_retains revised.retains (revised.mirrors _ _ sane.reflects.mirrors)

lemma Placeable.revise (placeable : s.Placeable env charter hash block) (revised : Revised charter s t)
    (steppedBefore : Stepped s.mapBlockIndex) : t.Placeable env charter hash block := by
  intro pParent found unknown
  obtain ⟨old, before, same⟩ := revised.keys _ pParent found
  have unknownBefore : s.mapBlockIndex.lookup hash = none := by
    cases at_ : s.mapBlockIndex.lookup hash with
    | none => rfl
    | some entry =>
      obtain ⟨new, atNew, -⟩ := revised.retains.entries hash entry at_
      cases atNew.symm.trans unknown
  rw [revised.retains.entries.ancestry_eq steppedBefore (revised.stepped steppedBefore) before, nHeight_of_bare same]
  exact revised.retains.sits (path_ancestry steppedBefore _) (placeable old before unknownBefore)

section

variable (charter) (s)

lemma revised_looked (env : Env) (outpoint : COutPoint) :
    Revised charter s { s with utxoSet := (s.utxoSet.getUTXO env outpoint).2 } where
  retains := ⟨.refl _, fun _ _ _ => rfl⟩
  keys _ pindex found := ⟨pindex, found, rfl⟩
  marked _ marked := marked
  tip := rfl
  stored _ _ body := .inl body
  events := rfl
  mirrors _ _ mirrors := mirrors.getUTXO env outpoint

lemma revised_failed (hash : Uint256) :
    Revised charter s (s.modifyIndex hash (raise blockFailedValid)) := by
  have relabelled : Relabelled (fun _ => False) s.mapBlockIndex
      (s.mapBlockIndex.modify hash (raise blockFailedValid)) :=
    relabelled_modify not_false fun _ => rfl
  refine ⟨⟨relabelled.retained, fun _ _ _ => rfl⟩, fun _ _ found => relabelled.lookup_before found,
    fun chain marked => ?_, rfl,
    fun _ _ body => .inl body, rfl, fun _ _ mirrors => mirrors⟩
  exact marked.modify hash (fun _ => rfl) (validChain_raise (by decide)) fun entry data =>
    haveData_raise _ entry (.inl data)

end

lemma revised_written (kept : KeepsCharter env charter s) (isBody : block = charter.bodyOf hash) :
    Revised charter s { s with blocks := s.blocks.insert hash block } := by
  have body : ∀ other found, (s.blocks.insert hash block).lookup other = some found →
      s.blocks.lookup other = some found ∨ found = charter.bodyOf other := by
    intro other found at_
    by_cases here : other = hash
    · subst here
      rw [lookup_insert] at at_
      exact .inr (Option.some.inj at_ ▸ isBody)
    · rw [lookup_insert_ne here] at at_
      exact .inl at_
  refine ⟨⟨.refl _, fun other pindex found => ?_⟩, fun _ pindex found => ⟨pindex, found, rfl⟩,
    fun _ marked => marked, rfl, body, rfl,
    fun _ _ mirrors => mirrors⟩
  have whole := kept.whole other pindex found
  by_cases here : other = hash
  · subst here
    rw [lookup_insert, whole, isBody]
  · exact lookup_insert_ne here

/-- The chain below the tip is the same and so is the set; what is new is one block that sits on its parent. -/
lemma Sane.index (sane : Sane env charter s) (placeable : s.Placeable env charter hash block) {pParent : CBlockIndex}
    {address : Nat} {tree : BlockTree} (isBody : block = charter.bodyOf hash)
    (stored : (s.blocks.lookup hash).isSome = true)
    (parent : s.getBlockIndex block.hashPrevBlock = some pParent) (unknown : s.getBlockIndex hash = none)
    (added : s.addBlockIndex hash (received block pParent address) = some tree) :
    Sane env charter { s with toBlockTree := tree } := by
  have linked : ∀ existing, s.getBlockIndex hash = some existing →
      (received block pParent address).pprev = none ∨ existing.pprev.isSome = true :=
    fun existing known => by cases unknown.symm.trans known
  obtain ⟨tip, -, atHash, elsewhere⟩ := addBlockIndex_lookup added
  have retained : Retained s.mapBlockIndex tree.mapBlockIndex := (addBlockIndex_grows linked added).1
  have retains : Retains s { s with toBlockTree := tree } := ⟨retained, fun _ _ _ => rfl⟩
  have stepped : Stepped tree.mapBlockIndex := stepped_addBlockIndex sane.kept.stepped linked added
  have body : s.blocks.lookup hash = some block := by
    obtain ⟨found, at_⟩ := Option.isSome_iff_exists.mp stored
    rw [at_, sane.kept.stored hash found at_, isBody]
  have indexed : ∀ tip, s.pindexTip = some tip → ∃ pindexTip, s.mapBlockIndex.lookup tip = some pindexTip := by
    intro hash atTip
    obtain ⟨tip, pindexTip, isTip, found⟩ := sane.tip
    cases isTip.symm.trans atTip
    exact ⟨pindexTip, found⟩
  have idle : (received block pParent address).validChain = false := by
    have status : ¬ (blockHaveData ||| blockValidTransactions) &&& blockValidChain ≠ 0 := by decide
    exact decide_eq_false status
  obtain ⟨active, chain⟩ := Active.addBlockIndex sane.active indexed unknown rfl idle added
  refine ⟨sane.kept.of_retains retains stepped sane.kept.stored ?_ (fun _ _ _ member => .inl member), active, ?_, ?_⟩
  · intro other pindex found new
    by_cases here : other = hash
    · subst here
      have entry : pindex = received block pParent address := by
        rw [atHash, storedEntry, unknown] at found
        exact (Option.some.inj found).symm
      subst entry
      refine ⟨fun alone => (by cases alone), isBody ▸ body, ?_⟩
      have below := retained.ancestry_eq sane.kept.stepped stepped parent
      have above : (tree.ancestry (some other)).map Prod.fst =
          other :: (s.ancestry (some block.hashPrevBlock)).map Prod.fst := by
        rw [ancestry_of_lookup stepped found]
        exact congrArg (other :: ·) below
      have path := path_ancestry sane.kept.stepped (some block.hashPrevBlock)
      rw [above]
      refine ⟨retains.lawful path (sane.kept.lawful _ pParent parent), fun entry found' at_ bodyThere => ?_⟩
      cases found.symm.trans at_
      cases body.symm.trans bodyThere
      exact retains.sits path (placeable pParent parent unknown)
    · rw [elsewhere other here] at found
      cases new.symm.trans found
  · obtain ⟨tip', pindexTip, isTip, found⟩ := sane.tip
    obtain ⟨new, atNew, -⟩ := retained tip' pindexTip found
    exact ⟨tip', new, tip.trans isTip, atNew⟩
  · rw [chain]
    exact sane.reflects.of_retains retains sane.reflects.mirrors

open ChainEvent

/-- Every block announced as connected was so in `origin`, or stood there on an accepted chain. -/
def Announced (env : Env) (origin s : CChainState) : Prop :=
  ∀ hash height block, blockConnected hash height block ∈ s.events →
    blockConnected hash height block ∈ origin.events ∨ Stood env origin hash height block

lemma Announced.of_subset (announced : Announced env origin s)
    (events : ∀ hash height block, blockConnected hash height block ∈ t.events →
      blockConnected hash height block ∈ s.events) : Announced env origin t :=
  fun hash height block member => announced hash height block (events hash height block member)

lemma Announced.connect {stage : Stage} {skip ok : Bool} (announced : Announced env origin s)
    (inStep : InStep env (fun _ => False) origin s chain)
    (landed : ok = true → InStep env (fun _ => False) origin t (hash :: chain)) (stepped : Stepped origin.mapBlockIndex)
    (path : Path origin.mapBlockIndex (hash :: chain)) (body : origin.blocks.lookup hash = some block)
    (result : s.connectTip env world stage hash block skip = (ok, t)) : Announced env origin t := by
  intro other height found member
  rcases (connectTip_announces result).2 other height found member with old | ⟨done, rfl, rfl, pindex, at_, rfl⟩
  · exact announced other height found old
  · obtain ⟨entry, atOrigin, height⟩ := Relabelled.height inStep.relabelled at_
    have chain := path.ancestry_eq stepped
    exact .inr ⟨entry, atOrigin, height, body, chain.symm ▸ (landed done).accepted⟩

/-- The state is in step with the chain, and what it has announced stood on accepted chains. -/
def Follows (env : Env) (origin s : CChainState) (chain : List Uint256) : Prop :=
  InStep env (fun _ => False) origin s chain ∧ Announced env origin s

lemma follows_tracking (env : Env) (world : World) (stepped : Stepped origin.mapBlockIndex) (base : List Uint256) :
    Tracking env world (fun stage => ∀ n, world stage .writeUTXOs n = true)
      (fun s above => Follows env origin s (above ++ base)) (Fitting env origin base) (fun _ => ¬ False)
      fun hash block => origin.blocks.lookup hash = some block := by
  have tracking := inStep_tracking env world (fun _ => False) origin base
  refine
    { shorten := tracking.shorten
      logged := fun ⟨inStep, announced⟩ logged => ⟨tracking.logged inStep logged, ?_⟩
      ended := fun stage finish ⟨inStep, announced⟩ => ⟨tracking.ended stage finish inStep, ?_⟩
      stored := fun ⟨inStep, _⟩ stored => tracking.stored inStep stored
      connect := fun made ⟨inStep, announced⟩ fitting body result =>
        have landed := tracking.connect made inStep fitting body result
        ⟨landed, announced.connect inStep (fun _ => landed) stepped fitting.path body result⟩
      connect_failed := fun made ⟨inStep, announced⟩ fitting exposed body result =>
        ⟨tracking.connect_failed made inStep fitting exposed body result,
          announced.connect inStep (fun done : false = true => nomatch done) stepped fitting.path body result⟩
      disconnect := fun made ⟨inStep, announced⟩ fitting result =>
        ⟨tracking.disconnect made inStep fitting result, announced.of_subset (disconnectTip_announces result).2⟩
      disconnect_failed := fun made ⟨inStep, announced⟩ fitting result =>
        ⟨tracking.disconnect_failed made inStep fitting result, announced.of_subset (disconnectTip_announces result).2⟩
      failChild := fun ⟨inStep, announced⟩ exposed => ⟨tracking.failChild inStep exposed, announced⟩ }
  · obtain ⟨asked, wal, rfl⟩ := logged
    exact announced
  · rw [Announced, walEnd_events]
    exact announced

lemma RollsBack.inStep {base restored : List Uint256} {good : List Uint256 → Prop} {outcome : Exit × CChainState}
    (rollsBack : RollsBack env world (fun s above => Follows env origin s (above ++ base)) good restored outcome) :
    RollsBack env world (fun s above => InStep env (fun _ => False) origin s (above ++ base))
      good restored outcome := by
  obtain ⟨s, connected, disconnected, above, ⟨inStep, -⟩, isGood, back, outcome⟩ := rollsBack
  exact ⟨s, connected, disconnected, above, inStep, isGood, back, outcome⟩

structure Lands (reached t : CChainState) : Prop where
  index : t.mapBlockIndex = reached.mapBlockIndex
  utxoSet : t.utxoSet = reached.utxoSet
  blocks : t.blocks = reached.blocks
  connected : ∀ hash height block, blockConnected hash height block ∈ t.events →
    blockConnected hash height block ∈ reached.events

lemma Lands.refl (s : CChainState) : Lands s s := ⟨rfl, rfl, rfl, fun _ _ _ member => member⟩

variable {reached : CChainState}

lemma Tipped.lands (tipped : Tipped hash reached t) : Lands reached t :=
  ⟨by rw [tipped.tree], tipped.utxoSet, tipped.blocks, tipped.connected⟩

lemma Follows.lands (follows : Follows env s reached chain) (lands : Lands reached t)
    (kept : KeepsCharter env charter s) (path : Path s.mapBlockIndex chain) : KeepsCharter env charter t ∧
    Reflects env t chain := by
  obtain ⟨inStep, announced⟩ := follows
  have relabelled : Relabelled (fun _ => False) s.mapBlockIndex t.mapBlockIndex := lands.index ▸ inStep.relabelled
  have blocks : t.blocks = s.blocks := lands.blocks.trans inStep.blocks
  have retains : Retains s t := ⟨relabelled.retained, fun _ _ _ => by rw [blocks]⟩
  obtain ⟨replay, accepted⟩ := retains.replay env path
  refine ⟨kept.of_retains retains (relabelled.stepped kept.stepped) ?_ ?_ (announced.of_subset lands.connected),
    retains.entries.path path, accepted.mpr inStep.accepted, ?_⟩
  · rw [blocks]
    exact kept.stored
  · intro hash pindex found new
    obtain ⟨old, before, -⟩ := relabelled.lookup_before found
    cases before.symm.trans new
  · rw [replay, lands.utxoSet]
    exact inStep.mirrors

lemma Follows.stay (follows : Follows env s t s.activeChain) (sane : Sane env charter s) : Sane env charter t := by
  obtain ⟨kept, reflects⟩ := follows.lands (.refl t) sane.kept sane.active.path
  obtain ⟨tip, pindexTip, isTip, found⟩ := sane.tip
  obtain ⟨new, atNew, -⟩ := follows.1.relabelled.lookup found
  have chain : t.activeChain = s.activeChain := by
    rw [activeChain, follows.1.tip, follows.1.relabelled.ancestry_eq sane.kept.stepped]
    rfl
  exact ⟨kept, ⟨kept.stepped, chain ▸ follows.1.marked⟩, ⟨tip, new, follows.1.tip.trans isTip, atNew⟩, chain ▸ reflects⟩

variable {pindexNew : Uint256} {entry : CBlockIndex}

lemma Follows.move
    (follows : Follows env s reached ((s.ancestry (some pindexNew)).map Prod.fst)) (tipped : Tipped pindexNew reached t)
    (sane : Sane env charter s) (found : s.mapBlockIndex.lookup pindexNew = some entry) : Sane env charter t := by
  obtain ⟨kept, reflects⟩ := follows.lands tipped.lands sane.kept (path_ancestry sane.kept.stepped _)
  have relabelled : Relabelled (fun _ => False) s.mapBlockIndex t.mapBlockIndex :=
    tipped.lands.index ▸ follows.1.relabelled
  obtain ⟨new, atNew, -⟩ := relabelled.lookup found
  have tip : t.pindexTip = some pindexNew := by rw [tipped.tree]
  have chain : t.activeChain = (s.ancestry (some pindexNew)).map Prod.fst := by
    rw [activeChain, tip, relabelled.ancestry_eq sane.kept.stepped]
  refine ⟨kept, ⟨kept.stepped, ?_⟩, ⟨pindexNew, new, tip, atNew⟩, chain ▸ reflects⟩
  rw [chain, tipped.lands.index]
  exact follows.1.marked

/-- The call ends without the old tip, and with no other in its place. -/
lemma Follows.lose {below : CChainState} (follows : Follows env s below s.activeChain.tail) (sane : Sane env charter s)
    (flagged : t = below.flagChainRebuild) : Lost env charter t := by
  subst flagged
  obtain ⟨tip, pindexTip, isTip, found⟩ := sane.tip
  have shape := activeChain_of_tip sane.kept.stepped isTip found
  have path : Path s.mapBlockIndex s.activeChain.tail := by
    rw [shape]
    exact path_ancestry sane.kept.stepped _
  have lands : Lands below below.flagChainRebuild := ⟨rfl, rfl, rfl, fun _ _ _ member => member⟩
  obtain ⟨kept, reflects⟩ := follows.lands lands sane.kept path
  obtain ⟨new, atNew, -⟩ := follows.1.relabelled.lookup found
  have chain : below.flagChainRebuild.activeChain = s.activeChain := by
    show (below.ancestry below.pindexTip).map Prod.fst = _
    rw [follows.1.tip, follows.1.relabelled.ancestry_eq sane.kept.stepped]
    rfl
  exact ⟨kept, rfl, ⟨tip, new, follows.1.tip.trans isTip, atNew⟩, chain ▸ reflects⟩

/-- What a call needs of its environment: the writes of the set are made, and nothing fails on the way back. -/
structure Reliable (world : World) : Prop where
  made : ∀ stage n, world stage .writeUTXOs n = true
  read : ∀ n, world .rollback .readBlock n = true
  passed : ∀ check n, world .rollback (.contextCheck check) n = true

section

variable (sane : Sane env charter s) (reliable : Reliable world) (isBody : block = charter.bodyOf pindexNew)
  (found : s.mapBlockIndex.lookup pindexNew = some entry)

include sane reliable isBody found

lemma Sane.prepared : Prepared env world s pindexNew block s.activeChain
    ((s.ancestry entry.pprev).map Prod.fst) [] where
  branches := ⟨(List.append_nil _).symm, by rw [ancestry_of_lookup sane.kept.stepped found,
    List.append_nil, List.map_cons]⟩
  active := sane.active
  hasTip := by
    obtain ⟨tip, -, isTip, -⟩ := sane.tip
    rw [isTip]
    nofun
  accepted := sane.reflects.accepted
  mirrors := sane.reflects.mirrors
  fits := by
    obtain ⟨tip, pindexTip, isTip, atTip⟩ := sane.tip
    rw [activeChain, isTip]
    exact (sane.kept.lawful tip pindexTip atTip).fits
  fitsNew := by
    have lawful := sane.kept.lawful pindexNew entry found
    rw [ancestry_of_lookup sane.kept.stepped found] at lawful
    exact lawful.fits
  body := by rw [sane.kept.whole pindexNew entry found, isBody]
  made := reliable.made .forward
  back := .inr ⟨reliable.made .rollback, reliable.read, reliable.passed⟩

lemma Sane.activateBestChain (now : Int) : Sane env charter (s.activateBestChain env world now pindexNew block).2 ∨
    Lost env charter (s.activateBestChain env world now pindexNew block).2 := by
  have prepared := sane.prepared reliable isBody found
  have tracking := follows_tracking env world sane.kept.stepped []
  have made := reliable.made
  have whole : s.activeChain ++ [] = s.activeChain := List.append_nil _
  have start : Follows env s s (s.activeChain ++ []) := ⟨prepared.start _, fun _ _ _ member => .inl member⟩
  cases tracking.activation (made .forward) prepared.active prepared.hasTip prepared.branches start prepared.fitting
      prepared.fittingNew (fun _ => not_false) prepared.body (activateBestChain_cases rfl) with
  | stayed follows => exact .inl (Follows.stay (whole ▸ follows) sane)
  | rolled rollsBack =>
    have accepted : s.Accepted env (s.activeChain ++ []) := whole.symm ▸ prepared.accepted
    have ended := rollsBack.inStep.succeeds ⟨made .rollback, reliable.read, reliable.passed⟩ prepared.fitting accepted
    rcases tracking.rolledBack (made .rollback) prepared.fitting rollsBack with failed | ⟨-, follows⟩
    · cases failed.symm.trans ended.1
    · exact .inl (Follows.stay (whole ▸ follows) sane)
  | moved follows tipped => exact .inl (Follows.move (prepared.branches.new ▸ follows) tipped sane found)
  | bereft follows _ flagged => exact .inr (Follows.lose (List.append_nil s.activeChain.tail ▸ follows) sane flagged)

end

end Dilithion.CChainState
