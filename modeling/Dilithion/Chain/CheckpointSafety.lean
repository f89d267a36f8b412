import Dilithion.Chain.Progress

/-! The chain below the tip keeps to the checkpoints. The default path compares all ancestors of a block
that does not extend the tip with them, the new selector all blocks above the fork, and going down cannot
lose a checkpoint that is not above the tip. -/

namespace Dilithion

open Lib BlockTree ChainParams CChainState CBlockIndex List

namespace BlockTree

/-- A block tree: heights go up by one from a genesis block at height 0, and the tip is indexed. -/
structure Rooted (t : BlockTree) : Prop where
  stepped : Stepped t.mapBlockIndex
  root : ∀ hash pindex, t.mapBlockIndex.lookup hash = some pindex → pindex.pprev = none → pindex.nHeight = 0
  tip : ∀ hash, t.pindexTip = some hash → ∃ pindex, t.mapBlockIndex.lookup hash = some pindex

/-- The ancestor of the tip at the height of a checkpoint is the checkpoint. -/
def CheckpointsMet (params : ChainParams) (t : BlockTree) : Prop :=
  ∀ tip pindexTip, t.pindexTip = some tip → t.getBlockIndex tip = some pindexTip →
    ∀ cp ∈ params.checkpoints, cp.nHeight ≤ pindexTip.nHeight → t.getAncestor tip cp.nHeight = some cp.hashBlock

def StandsAt (index : BlockMap) (chain : List Uint256) (height : Int) (hash : Uint256) : Prop :=
  hash ∈ chain ∧ ∃ entry, index.lookup hash = some entry ∧ entry.nHeight = height

/-- All checkpoints up to the height of its first block stand on the chain. -/
def Passes (params : ChainParams) (index : BlockMap) (chain : List Uint256) : Prop :=
  ∀ top pindex, chain.head? = some top → index.lookup top = some pindex →
    ∀ cp ∈ params.checkpoints, cp.nHeight ≤ pindex.nHeight → StandsAt index chain cp.nHeight cp.hashBlock

variable {params : ChainParams} {index : BlockMap} {t u : BlockTree} {chain : List Uint256}

lemma Descent.unique {entries : List (Uint256 × CBlockIndex)} (descent : Descent index entries)
    {a b : Uint256 × CBlockIndex}
    (atA : a ∈ entries) (atB : b ∈ entries) (same : a.2.nHeight = b.2.nHeight) : a = b := by
  have falling : entries.Pairwise fun a b => b.2.nHeight < a.2.nHeight := by
    have step : entries.IsChain fun a b => b.2.nHeight < a.2.nHeight := descent.steps.imp fun a b eq => by omega
    exact isChain_iff_pairwise.mp step
  by_contra apart
  let Apart : Uint256 × CBlockIndex → Uint256 × CBlockIndex → Prop := fun a b => a.2.nHeight ≠ b.2.nHeight
  have symmetric : Std.Symm Apart := ⟨fun _ _ => Ne.symm⟩
  have distinct : entries.Pairwise Apart := falling.imp fun less => less.ne'
  exact distinct.forall atA atB apart same

variable {hash : Uint256}

lemma getAncestor_eq_some_iff (stepped : Stepped t.mapBlockIndex) {ancestor : Uint256} {height : Int} :
    t.getAncestor hash height = some ancestor ↔
      StandsAt t.mapBlockIndex ((t.ancestry (some hash)).map Prod.fst) height ancestor := by
  have descent := descent_ancestry stepped (some hash)
  constructor
  · intro found
    obtain ⟨entry, first, rfl⟩ := Option.map_eq_some_iff.mp found
    have member := mem_of_find?_eq_some first
    exact ⟨mem_map_of_mem member, entry.2, descent.stored entry member, by simpa using find?_some first⟩
  · rintro ⟨member, pindex, found, rfl⟩
    obtain ⟨entry, inside, rfl⟩ := mem_map.mp member
    have same : entry.2 = pindex := Option.some.inj ((descent.stored entry inside).symm.trans found)
    rw [getAncestor]
    cases first : (t.ancestry (some hash)).find? fun entry => decide (entry.2.nHeight = pindex.nHeight) with
    | none =>
      have absent := find?_eq_none.mp first entry inside
      simp [same] at absent
    | some other =>
      have height : other.2.nHeight = pindex.nHeight := by simpa using find?_some first
      rw [Option.map_some, descent.unique (mem_of_find?_eq_some first) inside (by rw [same, height])]

lemma Rooted.head_activeChain (rooted : Rooted t) : t.activeChain.head? = t.pindexTip := by
  cases atTip : t.pindexTip with
  | none => simp [activeChain, atTip, ancestry]
  | some tip =>
    obtain ⟨pindexTip, found⟩ := rooted.tip tip atTip
    rw [activeChain, atTip, head_ancestry rooted.stepped found]

lemma checkpointsMet_iff (rooted : Rooted t) : CheckpointsMet params t ↔
    Passes params t.mapBlockIndex t.activeChain := by
  have compared : ∀ tip, t.pindexTip = some tip → ∀ height ancestor, t.getAncestor tip height = some ancestor ↔
      StandsAt t.mapBlockIndex t.activeChain height ancestor := by
    intro tip atTip height ancestor
    rw [getAncestor_eq_some_iff rooted.stepped, activeChain, atTip]
  have first := rooted.head_activeChain
  constructor
  · intro met top pindex isTop found cp member low
    rw [first] at isTop
    exact (compared top isTop _ _).mp (met top pindex isTop found cp member low)
  · intro passes tip pindexTip atTip found cp member low
    exact (compared tip atTip _ _).mpr (passes tip pindexTip (first.trans atTip) found cp member low)

variable {pindex : CBlockIndex}

lemma walkBack_standsAt (rooted : Rooted t) {height : Int} (low : 0 ≤ height) (steps : Nat)
    (found : t.mapBlockIndex.lookup hash = some pindex) (level : pindex.nHeight = height + steps) : ∃ ancestor,
      t.walkBack steps hash = some ancestor ∧
      StandsAt t.mapBlockIndex ((t.ancestry (some hash)).map Prod.fst) height ancestor := by
  rw [ancestry_of_lookup rooted.stepped found]
  induction steps generalizing hash pindex with
  | zero => exact ⟨hash, rfl, mem_cons_self, pindex, found, by omega⟩
  | succ steps ih =>
    cases link : pindex.pprev with
    | none =>
      have := rooted.root hash pindex found link
      omega
    | some parent =>
      obtain ⟨above, at_, step⟩ := rooted.stepped hash pindex parent found link
      obtain ⟨ancestor, walked, inside, stands⟩ := ih at_ (by omega)
      rw [ancestry_of_lookup rooted.stepped at_]
      refine ⟨ancestor, ?_, mem_cons_of_mem _ inside, stands⟩
      simpa [walkBack, getBlockIndex, found, link] using walked

/-- Every stored block has exactly one ancestor at each height from 0 to its own, where `GetAncestor` ends. -/
theorem getAncestor_at_each_height (rooted : Rooted t)
    (found : t.mapBlockIndex.lookup hash = some pindex) {height : Int}
    (low : 0 ≤ height) (high : height ≤ pindex.nHeight) : ∃ ancestor, t.getAncestorWalk hash height = some ancestor ∧
      ∀ other, StandsAt t.mapBlockIndex ((t.ancestry (some hash)).map Prod.fst) height other ↔ other = ancestor := by
  obtain ⟨ancestor, walked, stands⟩ := walkBack_standsAt rooted low (pindex.nHeight - height).toNat found (by omega)
  refine ⟨ancestor, ?_, fun other => ?_⟩
  · simpa [getAncestorWalk, getBlockIndex, found, not_lt.mpr low, not_lt.mpr high] using walked
  · rw [← getAncestor_eq_some_iff rooted.stepped] at stands ⊢
    rw [stands, Option.some.injEq, eq_comm]

lemma Path.below (stepped : Stepped index) (path : Path index (hash :: chain))
    (found : index.lookup hash = some pindex) : pindex.pprev = chain.head? ∧
      ∀ parent, chain.head? = some parent → ∃ above, index.lookup parent = some above ∧
      pindex.nHeight = above.nHeight + 1 := by
  obtain ⟨⟨entry, at_, link⟩, -⟩ := path
  cases at_.symm.trans found
  exact ⟨link, fun parent isParent => stepped hash pindex parent found (link.trans isParent)⟩

lemma Passes.shorten (stepped : Stepped index) (path : Path index (hash :: chain))
    (passes : Passes params index (hash :: chain)) : Passes params index chain := by
  intro top below isTop found cp member low
  obtain ⟨⟨pindex, at_, -⟩, -⟩ := id path
  obtain ⟨-, step⟩ := path.below stepped at_
  obtain ⟨above, atAbove, height⟩ := step top isTop
  cases atAbove.symm.trans found
  obtain ⟨onChain, entry, atEntry, level⟩ := passes hash pindex rfl at_ cp member (by omega)
  refine ⟨(mem_cons.mp onChain).resolve_left fun same => ?_, entry, atEntry, level⟩
  -- the first block is higher than the checkpoint
  rw [same, at_] at atEntry
  cases atEntry
  omega

lemma Passes.extend (configured : Configured params) (stepped : Stepped index)
    (root : ∀ hash pindex, index.lookup hash = some pindex → pindex.pprev = none → pindex.nHeight = 0)
    (path : Path index (hash :: chain)) (passes : Passes params index chain)
    (found : index.lookup hash = some pindex) (checked : params.checkpointCheck pindex.nHeight hash = true) :
    Passes params index (hash :: chain) := by
  intro top own isTop at_ cp member low
  cases isTop
  cases at_.symm.trans found
  obtain ⟨link, step⟩ := path.below stepped found
  by_cases level : cp.nHeight = pindex.nHeight
  · have same := hash_of_checkpointCheck configured member (level ▸ checked)
    rw [same]
    exact ⟨mem_cons_self, pindex, found, level.symm⟩
  · cases parent : chain.head? with
    | none =>
      have atRoot := root _ pindex found (link.trans parent)
      have reachable := configured.reachable cp member
      omega
    | some below =>
      obtain ⟨above, atAbove, height⟩ := step below parent
      obtain ⟨onChain, rest⟩ := passes below above parent atAbove cp member (by omega)
      exact ⟨.tail _ onChain, rest⟩

variable {above : List Uint256}

lemma Passes.drop (stepped : Stepped index) (path : Path index (above ++ chain))
    (passes : Passes params index (above ++ chain)) : Passes params index chain := by
  induction above with
  | nil => exact passes
  | cons hash rest ih => exact ih path.2 (passes.shorten stepped path)

lemma Passes.append (configured : Configured params) (stepped : Stepped index)
    (root : ∀ hash pindex, index.lookup hash = some pindex → pindex.pprev = none → pindex.nHeight = 0)
    (path : Path index (above ++ chain)) (passes : Passes params index chain)
    (checked : ∀ hash ∈ above, ∀ pindex, index.lookup hash = some pindex →
      params.checkpointCheck pindex.nHeight hash = true) :
    Passes params index (above ++ chain) := by
  induction above with
  | nil => exact passes
  | cons hash rest ih =>
    obtain ⟨⟨pindex, found, -⟩, pathRest⟩ := id path
    exact (ih pathRest fun other inside => checked other (.tail _ inside)).extend configured stepped root path found
      (checked hash (.head _) pindex found)

lemma Passes.of_relabelled {before after : BlockMap} (relabelled : Relabelled (fun _ => False) before after)
    (passes : Passes params before chain) : Passes params after chain := by
  intro top pindex isTop found cp member low
  obtain ⟨old, at_, same⟩ := relabelled.lookup_before found
  obtain ⟨onChain, entry, atEntry, level⟩ :=
    passes top old isTop at_ cp member (nHeight_of_bare same ▸ low)
  obtain ⟨new, atNew, sameEntry⟩ := relabelled.lookup atEntry
  exact ⟨onChain, new, atNew, (nHeight_of_bare sameEntry).trans level⟩

lemma Rooted.of_kept (rooted : Rooted t) (kept : FailuresKept t.mapBlockIndex u.mapBlockIndex)
    (tip : ∀ hash, u.pindexTip = some hash → ∃ pindex, t.mapBlockIndex.lookup hash = some pindex) : Rooted u := by
  refine ⟨kept.relabelled.stepped rooted.stepped, ?_, ?_⟩
  · intro hash pindex found alone
    obtain ⟨old, at_, same⟩ := kept.relabelled.lookup_before found
    rw [nHeight_of_bare same]
    exact rooted.root hash old at_ (pprev_of_bare same ▸ alone)
  · intro hash atTip
    obtain ⟨old, at_⟩ := tip hash atTip
    obtain ⟨new, found, -⟩ := kept.relabelled.lookup at_
    exact ⟨new, found⟩

structure Checked (params : ChainParams) (t : BlockTree) : Prop where
  rooted : Rooted t
  met : CheckpointsMet params t

lemma Checked.passes (checked : Checked params t) : Passes params t.mapBlockIndex t.activeChain :=
  (checkpointsMet_iff checked.rooted).mp checked.met

/-- Relabelling the entries and moving the tip to the top of a chain that passes. -/
lemma Checked.moved (checked : Checked params t) (kept : FailuresKept t.mapBlockIndex u.mapBlockIndex)
    (path : Path t.mapBlockIndex chain) (passes : Passes params t.mapBlockIndex chain)
    (tip : u.pindexTip = chain.head?) :
    Checked params u := by
  have rooted : Rooted u := by
    refine checked.rooted.of_kept kept fun hash atTip => ?_
    rw [tip] at atTip
    cases chain with
    | nil => cases atTip
    | cons first rest =>
      cases atTip
      obtain ⟨⟨pindex, found, -⟩, -⟩ := path
      exact ⟨pindex, found⟩
  have active : u.activeChain = chain := by
    rw [activeChain, tip]
    exact (kept.relabelled.path path).ancestry_eq rooted.stepped
  exact ⟨rooted, (checkpointsMet_iff rooted).mpr (active ▸ passes.of_relabelled kept.relabelled)⟩

lemma passes_of_checkpointsHold (configured : Configured params) (checked : Checked params t)
    (found : t.mapBlockIndex.lookup hash = some pindex) (holds : t.checkpointsHold params hash pindex = true) :
    Passes params t.mapBlockIndex ((t.ancestry (some hash)).map Prod.fst) := by
  have stepped := checked.rooted.stepped
  simp only [checkpointsHold, Bool.and_eq_true] at holds
  obtain ⟨⟨tier1, tier2⟩, tier3⟩ := holds
  by_cases extends_ : t.pindexTip.isSome ∧ pindex.pprev = t.pindexTip
  · -- a block on the tip: the chain below it passes already
    have split : (t.ancestry (some hash)).map Prod.fst = hash :: t.activeChain := by
      rw [ancestry_of_lookup stepped found, extends_.2]
      rfl
    have path := path_ancestry stepped (some hash)
    rw [split] at path ⊢
    exact checked.passes.extend configured stepped checked.rooted.root path found tier1
  · have multiBlock : (t.pindexTip.isNone || decide (pindex.pprev ≠ t.pindexTip)) = true := by
      rw [Bool.or_eq_true, decide_eq_true_eq]
      by_contra neither
      rw [not_or, not_not, Bool.not_eq_true, ← Option.not_isSome, Bool.not_eq_false'] at neither
      exact extends_ neither
    rw [multiBlock, Bool.not_true, Bool.false_or, all_eq_true] at tier3
    intro top entry isTop at_ cp member low
    rw [head_ancestry stepped found] at isTop
    cases isTop
    cases at_.symm.trans found
    rw [← getAncestor_eq_some_iff stepped]
    obtain ⟨highest, inside, isHighest⟩ := highestCheckpoint_of_mem configured member
    rw [isHighest] at tier2 tier3
    by_cases level : cp.nHeight = pindex.nHeight
    · rw [getAncestor_eq_some_iff stepped, hash_of_checkpointCheck configured member (level ▸ tier1)]
      exact ⟨mem_of_mem_head? (head_ancestry stepped found), pindex, found, level.symm⟩
    · have below : cp.nHeight < pindex.nHeight := by omega
      by_cases top : cp.nHeight = highest.nHeight
      · rw [configured.agree cp member highest inside top]
        simpa [← top, below] using tier2
      · simpa [not_le.mpr below, top] using tier3 cp member

lemma Checked.offered (checked : Checked params t)
    (linked : ∀ existing, t.getBlockIndex hash = some existing → pindex.pprev = none ∨ existing.pprev.isSome = true)
    (added : t.addBlockIndex hash pindex = some u) : Checked params u := by
  obtain ⟨sameTip, -, -, -⟩ := addBlockIndex_lookup added
  obtain ⟨keeps, stems⟩ := addBlockIndex_grows linked added
  have stepped := stepped_addBlockIndex checked.rooted.stepped linked added
  have rooted : Rooted u := by
    refine ⟨stepped, fun key entry found alone => ?_, fun key atTip => ?_⟩
    · rcases stems key entry found with ⟨old, at_, same⟩ | ⟨unknown, rfl⟩
      · rw [nHeight_of_bare same]
        exact checked.rooted.root key old at_ (pprev_of_bare same ▸ alone)
      · exact (addBlockIndex_new added unknown).1 alone
    · obtain ⟨entry, found⟩ := checked.rooted.tip key (sameTip ▸ atTip)
      obtain ⟨new, atNew, -⟩ := keeps key entry found
      exact ⟨new, atNew⟩
  have retained : Retained t.mapBlockIndex u.mapBlockIndex := keeps
  have active := retained.activeChain_eq checked.rooted.stepped stepped sameTip checked.rooted.tip
  refine ⟨rooted, (checkpointsMet_iff rooted).mpr ?_⟩
  rw [active]
  intro top entry isTop found cp member low
  obtain ⟨old, atOld⟩ := checked.rooted.tip top (checked.rooted.head_activeChain ▸ isTop)
  obtain ⟨new, atNew, same⟩ := keeps top old atOld
  cases atNew.symm.trans found
  obtain ⟨onChain, standing, at_, level⟩ :=
    checked.passes top old isTop atOld cp member (nHeight_of_bare same ▸ low)
  obtain ⟨still, atStill, sameStanding⟩ := keeps _ standing at_
  exact ⟨onChain, still, atStill, (nHeight_of_bare sameStanding).trans level⟩

end BlockTree

namespace CChainState

variable {env : Env} {world : World} {clock : Nat → Int} {block : CBlock}
  {origin s t : CChainState} {params : ChainParams}

/-- On the default path only the end of a successful call moves the tip. -/
lemma tip_preserved (env : Env) (world : World) (origin : CChainState) :
    Preserved env world (fun s => s.pindexTip = origin.pindexTip ∧ FailuresKept origin.mapBlockIndex s.mapBlockIndex)
      fun _ _ => True where
  logged holds logged := ⟨logged.quiet.tip.trans holds.1, logged.quiet.index ▸ holds.2⟩
  ended {s} stage finish holds := by
    have quiet := quiet_walEnd world s stage finish
    exact ⟨quiet.tip.trans holds.1, quiet.index ▸ holds.2⟩
  flagged holds := holds
  stored _ _ := trivial
  connect holds _ result := by
    refine ⟨?_, holds.2.trans (kept_connectTip result)⟩
    cases connectTip_cases result with
    | unknown missing => exact holds.1
    | refused pindex found asked failed => exact holds.1
    | inapplicable pindex found asked set stopped => exact holds.1
    | linked pindex found asked set applied =>
      rw [linkTip_tree]
      exact holds.1
  disconnect holds result := by
    refine ⟨?_, holds.2.trans (kept_disconnectTip result)⟩
    cases disconnectTip_cases result with
    | unknown missing => exact holds.1
    | unread nothing asked => exact holds.1
    | irreversible pindex found asked block kept set stopped =>
      exact (quiet_recordUndoFailure _ _).tip.trans holds.1
    | unlinked pindex found asked block kept set undone =>
      rw [unlinkTip_tree]
      exact holds.1
  failChild {s hash} holds := ⟨holds.1, holds.2.trans (.failLeaf s.toBlockTree hash)⟩

lemma Checked.activateBestChain (configured : Configured env.params)
    (checked : Checked env.params s.toBlockTree) (world : World)
    (now : Int) (pindexNew : Uint256) (block : CBlock) :
    Checked env.params (s.activateBestChain env world now pindexNew block).2.toBlockTree := by
  cases result : s.activateBestChain env world now pindexNew block with
  | mk exit t =>
    have activation := activateBestChain_cases result
    unfold CChainState.activateBestChain at result
    split at result
    · cases result
      exact checked
    next entry found =>
      split at result
      · cases result
        exact checked
      next holds =>
        rw [Bool.not_eq_true, Bool.not_eq_false'] at holds
        have passes := passes_of_checkpointsHold configured checked found holds
        have stepped := checked.rooted.stepped
        rcases (tip_preserved env world s).activation trivial ⟨rfl, .refl _⟩ activation with
          stays | ⟨reached, kept, tipped⟩
        · exact checked.moved stays.2 (path_ancestry stepped s.pindexTip) checked.passes
            (stays.1.trans checked.rooted.head_activeChain.symm)
        · rw [tipped.tree]
          exact checked.moved kept.2 (path_ancestry stepped (some pindexNew)) passes (head_ancestry stepped found).symm

lemma checked_stepping (env : Env) (world : World) (params : ChainParams) (stepped : Stepped origin.mapBlockIndex) :
    Stepping env world (Seated origin) fun chain => Path origin.mapBlockIndex chain ∧
    Passes params origin.mapBlockIndex chain :=
  (seated_stepping env world origin).restrict And.left fun good => ⟨good.1.2, good.2.shorten stepped good.1⟩

lemma Checked.quiet (checked : Checked params s.toBlockTree) (quiet : Quiet s t) : Checked params t.toBlockTree :=
  checked.moved (quiet.index ▸ .refl _) (path_ancestry checked.rooted.stepped s.pindexTip) checked.passes
    (quiet.tip.trans checked.rooted.head_activeChain.symm)

/-- The step towards a block that no checkpoint above the fork speaks against. -/
lemma Checked.activateBestChainStep (configured : Configured params)
    (checked : Checked params s.toBlockTree) {leaf : Uint256}
    (clear : s.violatingBlock params leaf = none) (env : Env) (world : World) (clock : Nat → Int) (block : CBlock) :
    Checked params (s.activateBestChainStep env world clock leaf block).2.toBlockTree := by
  have stepped := checked.rooted.stepped
  have passes : Passes params s.mapBlockIndex ((s.ancestry (some leaf)).map Prod.fst) := by
    obtain ⟨base, old, new⟩ := pathUntil_split stepped leaf
    have passesOld := checked.passes
    have pathOld := path_ancestry stepped s.pindexTip
    have pathNew := path_ancestry stepped (some leaf)
    rw [activeChain] at old
    rw [old] at pathOld
    rw [activeChain, old] at passesOld
    rw [new] at pathNew ⊢
    refine (passesOld.drop stepped pathOld).append configured stepped checked.rooted.root pathNew
      fun hash inside pindex found => ?_
    have passed := find?_eq_none.mp clear hash inside
    simpa [getBlockIndex, found] using passed
  cases result : s.activateBestChainStep env world clock leaf block with
  | mk exit t =>
    obtain ⟨off, on, base, chain, -, -, seated, ⟨path, passesChain⟩, -⟩ :=
      (checked_stepping env world params stepped).activateBestChainStep
      stepped (seated_refl stepped checked.rooted.tip) ⟨path_ancestry stepped s.pindexTip, checked.passes⟩
      ⟨path_ancestry stepped (some leaf), passes⟩ result
    exact checked.moved seated.kept path passesChain seated.tip

lemma Checked.activationTurn (configured : Configured env.params)
    (checked : Checked env.params s.toBlockTree) (world : World)
    (clock : Nat → Int) (block : CBlock) :
    Checked env.params (s.activationTurn env world clock block).state.toBlockTree := by
  unfold CChainState.activationTurn
  cases searched : s.findMostWorkChainImpl with
  | mk answer u =>
    have seated := (seated_search checked.rooted.stepped checked.rooted.tip searched).1
    have checkedU : Checked env.params (s.withTree u).toBlockTree :=
      checked.moved seated.kept (path_ancestry checked.rooted.stepped s.pindexTip) checked.passes seated.tip
    cases answer with
    | none => exact checkedU
    | some leaf =>
      dsimp only
      split
      · exact checkedU
      next entry found =>
        split
        · exact checkedU
        split
        · exact checkedU
        split
        next violating violated =>
          exact checkedU.moved (.markBlockAsFailed u violating)
            (path_ancestry checkedU.rooted.stepped _) checkedU.passes
            checkedU.rooted.head_activeChain.symm
        next clear =>
          have after := Checked.activateBestChainStep configured checkedU clear env world clock block
          split
          · exact after
          · split <;> exact after

variable {fuel : Nat}

section

variable (configured : Configured env.params) (checked : Checked env.params s.toBlockTree)

include configured checked

lemma Checked.activationLoop
    {returns : Bool} (result : activationLoop env world clock block fuel s = some (returns, t)) :
    Checked env.params t.toBlockTree := by
  induction fuel generalizing s with
  | zero => cases result
  | succ fuel ih =>
    have after := Checked.activationTurn configured checked world clock block
    rw [activationLoop] at result
    split at result
    next ended last turn =>
      rw [turn] at after
      cases result
      exact after
    next again turn =>
      rw [turn] at after
      exact ih after result

lemma Checked.activateBestChainNew {pindexNew : Uint256} {activated : Activated}
    (result : activateBestChainNew env world clock fuel s pindexNew block = some activated) :
    Checked env.params activated.state.toBlockTree := by
  unfold CChainState.activateBestChainNew at result
  split at result
  · cases result
    exact checked
  next entry found =>
    split at result
    · cases result
      exact checked
    · obtain ⟨⟨returns, last⟩, looped, rfl⟩ := Option.map_eq_some_iff.mp result
      have offered : Quiet s (s.withTree (s.toBlockTree.insertCandidate pindexNew entry)) := by
        unfold insertCandidate
        split <;> exact ⟨rfl, rfl, id⟩
      have after := Checked.activationLoop configured (Checked.quiet checked offered) looped
      split
      · rwa [(announceTip_tree last).1]
      · exact after

end

lemma quiet_recordRewind (world : World) (s : CChainState) (targetHeight : Int) :
    Quiet s (s.recordRewind world targetHeight) :=
  (logged_walCall ..).quiet.trans (logged_walCall ..).quiet

lemma Checked.disconnectTip (checked : Checked params s.toBlockTree) {tip : Uint256}
    (atTip : s.pindexTip = some tip) {ok : Bool}
    (result : s.disconnectTip env world .forward tip = (ok, t)) :
    Checked params (if ok then t.rewindTip tip else t).toBlockTree := by
  have stepped := checked.rooted.stepped
  obtain ⟨pindexTip, found⟩ := checked.rooted.tip tip atTip
  have split := activeChain_of_tip stepped atTip found
  have path := path_ancestry stepped s.pindexTip
  have seated := seated_refl stepped checked.rooted.tip
  have passes := checked.passes
  change Path s.mapBlockIndex s.activeChain at path
  rw [split] at path seated passes
  have stepping := checked_stepping env world params stepped
  cases ok with
  | false =>
    have left := stepping.disconnect_failed seated result
    exact checked.moved left.kept path passes left.tip
  | true =>
    have below := stepping.disconnect seated ⟨path, passes⟩ result
    exact checked.moved below.kept path.2 (passes.shorten stepped path) below.tip

def rewound : Except CChainState (Nat × CChainState) → CChainState
  | .error s => s
  | .ok (_, s) => s

section

variable (checked : Checked params s.toBlockTree)

include checked

lemma Checked.rewindBlocks (env : Env) (world : World) (targetHeight : Int)
    (limit total : Nat) : Checked params (rewound (rewindBlocks env world targetHeight limit total s)).toBlockTree := by
  induction limit generalizing s total with
  | zero => exact checked
  | succ limit ih =>
    rw [rewindBlocks]
    split
    · exact checked
    next tip isAbove =>
      have atTip : s.pindexTip = some tip := (Option.filter_eq_some_iff.mp isAbove).1
      split
      next left step => exact Checked.quiet (Checked.disconnectTip checked atTip step) (quiet_walEnd world left _ _)
      next below step => exact ih (Checked.disconnectTip checked atTip step) (total + 1)

lemma Checked.rewindBatch (env : Env) (world : World) (targetHeight batchSize : Int)
    (total : Nat) : Checked params (rewound (rewindBatch env world targetHeight batchSize total s)).toBlockTree := by
  have moved := Checked.rewindBlocks checked env world targetHeight (s.batchLimit batchSize) total
  unfold CChainState.rewindBatch
  split
  next stopped result =>
    rw [result] at moved
    exact moved
  next count last result =>
    rw [result] at moved
    exact Checked.quiet moved ((quiet_persistTip world last).trans (logged_walCall ..).quiet)

lemma Checked.rewindLoop {targetHeight batchSize : Int} {total : Nat} {count : Int}
    (result : rewindLoop env world targetHeight batchSize fuel total s = some (count, t)) :
    Checked params t.toBlockTree := by
  induction fuel generalizing s total with
  | zero => cases result
  | succ fuel ih =>
    rw [rewindLoop] at result
    split at result
    · cases result
      exact Checked.quiet checked ((quiet_persistTip world s).trans (quiet_walEnd world _ _ _))
    · have moved := Checked.rewindBatch checked env world targetHeight batchSize total
      split at result
      next stopped batch =>
        rw [batch] at moved
        cases result
        exact moved
      next done last batch =>
        rw [batch] at moved
        exact ih moved result

lemma Checked.disconnectToHeight {targetHeight batchSize count : Int}
    (result : disconnectToHeight env world fuel s targetHeight batchSize = some (count, t)) :
    Checked params t.toBlockTree := by
  unfold CChainState.disconnectToHeight at result
  split at result
  · cases result
    exact checked
  split at result
  · cases result
    exact checked
  split at result
  · cases result
    exact checked
  split at result
  · cases result
    exact checked
  · exact Checked.rewindLoop (Checked.quiet checked (quiet_recordRewind world s targetHeight)) result

end

/-- One call on the chain state. Whatever the disk, the checks and the clock answer is allowed. The lock is
free between two batches of `DisconnectToHeight`, so that a batch counts as a call of its own; a block is
offered by adding it to the index. -/
inductive ChainCall (env : Env) : CChainState → CChainState → Prop where
  | activate {s : CChainState} (world : World) (now : Int) (pindexNew : Uint256) (block : CBlock) :
      ChainCall env s (s.activateBestChain env world now pindexNew block).2
  | select {s : CChainState} (world : World) (clock : Nat → Int) (fuel : Nat) (pindexNew : Uint256) (block : CBlock)
      (activated : Activated) (result : activateBestChainNew env world clock fuel s pindexNew block = some activated) :
      ChainCall env s activated.state
  | disconnect {s t : CChainState} (world : World) (fuel : Nat) (targetHeight batchSize count : Int)
      (result : disconnectToHeight env world fuel s targetHeight batchSize = some (count, t)) : ChainCall env s t
  | batch {s : CChainState} (world : World) (targetHeight batchSize : Int) (total : Nat) :
      ChainCall env s (rewound (rewindBatch env world targetHeight batchSize total s))
  | offer {s : CChainState} {u : BlockTree} (hash : Uint256) (pindex : CBlockIndex)
      (linked : ∀ existing, s.getBlockIndex hash = some existing → pindex.pprev = none ∨ existing.pprev.isSome = true)
      (added : s.toBlockTree.addBlockIndex hash pindex = some u) : ChainCall env s (s.withTree u)

lemma ChainCall.checked (configured : Configured env.params) (call : ChainCall env s t)
    (checked : Checked env.params s.toBlockTree) :
    Checked env.params t.toBlockTree := by
  cases call with
  | activate world now pindexNew block => exact Checked.activateBestChain configured checked world now pindexNew block
  | select world clock fuel pindexNew block activated result =>
    exact Checked.activateBestChainNew configured checked result
  | disconnect world fuel targetHeight batchSize count result => exact Checked.disconnectToHeight checked result
  | batch world targetHeight batchSize total => exact Checked.rewindBatch checked env world targetHeight batchSize total
  | offer hash pindex linked added => exact checked.offered linked added

/-- Along every run the ancestors of the tip at the heights of the checkpoints are the checkpoints. -/
theorem checkpointsMet_of_run (env : Env) (configured : Configured env.params) (s t : CChainState)
    (rooted : Rooted s.toBlockTree)
    (met : CheckpointsMet env.params s.toBlockTree) (run : Relation.ReflTransGen (ChainCall env) s t) :
    CheckpointsMet env.params t.toBlockTree := by
  suffices Checked env.params t.toBlockTree from this.met
  induction run with
  | refl => exact ⟨rooted, met⟩
  | tail _ call ih => exact call.checked configured ih

def guardedEnv : Env := { forkEnv with params := { forkEnv.params with checkpoints := [⟨1, forkTip⟩] } }

lemma forkState_rooted : Rooted forkState.toBlockTree := by
  refine ⟨forkState_active.stepped, ?_, forkState_grown.tip⟩
  exact Table.forall_lookup (fun _ (pindex : CBlockIndex) => pindex.pprev = none → pindex.nHeight = 0) (by decide)

theorem getAncestor_forkRival : ∃ ancestor, forkState.getAncestorWalk forkRival 1 = some ancestor ∧
    ∀ other, StandsAt forkState.mapBlockIndex ((forkState.ancestry (some forkRival)).map Prod.fst) 1 other ↔
    other = ancestor :=
  getAncestor_at_each_height forkState_rooted (by rfl) (by decide) (by decide)

/-- The heavier branch leaves the chain below the checkpoint and ends above it. -/
theorem checkpointsMet_on_guarded_fork : ∃ t, Relation.ReflTransGen (ChainCall guardedEnv) forkState t ∧
    t.pindexTip = some forkTip ∧ CheckpointsMet guardedEnv.params t.toBlockTree := by
  have configured : Configured guardedEnv.params := configured_of_rising (by decide) (by decide)
  have met : CheckpointsMet guardedEnv.params forkState.toBlockTree := by
    intro tip pindexTip atTip found cp member low
    cases atTip
    cases mem_singleton.mp member
    decide
  let refused := (forkState.activateBestChain guardedEnv (refusingWorld 25) 0 forkRival
    (forkBlock (some forkRivalParent) 3)).2
  have run : Relation.ReflTransGen (ChainCall guardedEnv) forkState refused :=
    .single (.activate (refusingWorld 25) 0 forkRival (forkBlock (some forkRivalParent) 3))
  exact ⟨refused, run, by decide,
    checkpointsMet_of_run guardedEnv configured forkState refused forkState_rooted met run⟩

end CChainState

end Dilithion
