import Dilithion.Chain.FailedReorg
import Dilithion.Chain.Seated

/-! The activation loop of the new selector ends, and does not lose work. Every turn that asks for another
one marks the block it has just selected as failed, so the number of blocks without a failure flag bounds
the number of turns. The tip moves to a block with at least its work, or up from where it is, or the node
asks to be rebuilt. -/

namespace Dilithion

open Lib BlockTree CBlockIndex List Option

namespace BlockTree

def tipWork (t : BlockTree) : Nat :=
  ((t.pindexTip.bind t.getBlockIndex).map fun pindex => pindex.nChainWork.toNat).getD 0

/-- A block tree: parents are indexed, one lower than their children and without more work, and so is the tip. -/
structure Grown (t : BlockTree) : Prop where
  stepped : Stepped t.mapBlockIndex
  worked : ∀ hash pindex parent above, t.mapBlockIndex.lookup hash = some pindex → pindex.pprev = some parent →
    t.mapBlockIndex.lookup parent = some above → above.nChainWork.toNat ≤ pindex.nChainWork.toNat
  tip : ∀ hash, t.pindexTip = some hash → ∃ pindex, t.mapBlockIndex.lookup hash = some pindex

def validBlocks (index : BlockMap) : Finset Uint256 :=
  index.keys.toFinset.filter fun hash => (index.lookup hash).any fun pindex => !pindex.isInvalid

lemma mem_validBlocks {index : BlockMap} {hash : Uint256} :
    hash ∈ validBlocks index ↔ ∃ pindex, index.lookup hash = some pindex ∧ pindex.isInvalid = false := by
  rw [validBlocks, Finset.mem_filter, List.mem_toFinset, Option.any_eq_true]
  simp only [Bool.not_eq_true']
  exact and_iff_right_of_imp fun ⟨pindex, found, _⟩ => Table.mem_keys_iff.mpr ⟨pindex, found⟩

lemma validBlocks_subset {before after : BlockMap} (kept : FailuresKept before after) :
    validBlocks after ⊆ validBlocks before := by
  intro hash member
  obtain ⟨new, found, valid⟩ := mem_validBlocks.mp member
  obtain ⟨old, at_, -⟩ := kept.relabelled.lookup_before found
  refine mem_validBlocks.mpr ⟨old, at_, ?_⟩
  cases invalid : old.isInvalid with
  | false => rfl
  | true =>
    obtain ⟨still, found', failed⟩ := kept.failed hash old at_ invalid
    rw [found] at found'
    cases found'
    exact (valid.symm.trans failed).symm

end BlockTree

namespace CChainState

variable {env : Env} {world : World} {clock : Nat → Int} {block : CBlock}
  {origin s t : CChainState} {chain : List Uint256}

def headWork (index : BlockMap) (chain : List Uint256) : Nat :=
  ((chain.head?.bind index.lookup).map fun pindex => pindex.nChainWork.toNat).getD 0

lemma Seated.tipWork_eq (seated : Seated origin s chain) : s.tipWork = headWork origin.mapBlockIndex chain := by
  unfold tipWork headWork getBlockIndex
  rw [seated.tip]
  cases chain.head? with
  | none => rfl
  | some hash =>
    have same := (seated.kept.relabelled hash).1
    rw [bind_some, bind_some]
    cases new : s.mapBlockIndex.lookup hash <;> cases old : origin.mapBlockIndex.lookup hash <;>
      simp only [new, old, map_some, map_none, reduceCtorEq, some.injEq] at same ⊢
    rw [getD_some, getD_some, nChainWork_of_bare same]

lemma headWork_mono {t : BlockTree} (grown : Grown t) {above : List Uint256}
    (path : Path t.mapBlockIndex (above ++ chain)) :
    headWork t.mapBlockIndex chain ≤ headWork t.mapBlockIndex (above ++ chain) := by
  induction above with
  | nil => exact le_refl _
  | cons hash rest ih =>
    refine (ih path.2).trans ?_
    obtain ⟨⟨pindex, found, link⟩, -⟩ := path
    change pindex.pprev = (rest ++ chain).head? at link
    have own : headWork t.mapBlockIndex (hash :: (rest ++ chain)) = pindex.nChainWork.toNat := by simp [headWork, found]
    rw [cons_append, own, headWork, ← link]
    cases parent : pindex.pprev with
    | none => exact Nat.zero_le _
    | some above =>
      obtain ⟨up, at_, -⟩ := grown.stepped hash pindex above found parent
      simpa [at_] using grown.worked hash pindex above up found parent at_

lemma Seated.grown (seated : Seated origin s chain) (grown : Grown origin.toBlockTree)
    (path : Path origin.mapBlockIndex chain) :
    Grown s.toBlockTree := by
  refine ⟨seated.kept.relabelled.stepped grown.stepped, ?_, ?_⟩
  · intro hash pindex parent above found link atParent
    obtain ⟨old, at_, same⟩ := seated.kept.relabelled.lookup_before found
    obtain ⟨up, atUp, sameUp⟩ := seated.kept.relabelled.lookup_before atParent
    rw [nChainWork_of_bare same, nChainWork_of_bare sameUp]
    exact grown.worked hash old parent up at_ (pprev_of_bare same ▸ link) atUp
  · intro hash atTip
    rw [seated.tip] at atTip
    cases chain with
    | nil => cases atTip
    | cons first rest =>
      cases atTip
      obtain ⟨⟨entry, at_, -⟩, -⟩ := seated.kept.relabelled.path path
      exact ⟨entry, at_⟩

lemma seated_grown (grown : Grown s.toBlockTree) : Seated s s s.activeChain := seated_refl grown.stepped grown.tip

variable {exit : StepExit}

/-- A chain that ends a step without a request to be rebuilt has at least the work of the one before. -/
lemma headWork_of_ends {t : CChainState} {off on base : List Uint256} (grown : Grown s.toBlockTree)
    (path : Path s.mapBlockIndex chain)
    (heavier : headWork s.mapBlockIndex (off ++ base) ≤ headWork s.mapBlockIndex (on ++ base))
    (ends : Ends off on base exit t chain) :
    headWork s.mapBlockIndex (off ++ base) ≤ headWork s.mapBlockIndex chain ∨ t.chainNeedsRebuild = true ∧
    exit.returns = false := by
  cases ends with
  | idle stays => exact .inl (le_refl _)
  | switched => exact .inl heavier
  | rebuild flagged stops => exact .inr ⟨flagged, stops⟩
  | unread kept split =>
    subst kept
    exact .inl (headWork_mono grown path)
  | refused kept split u marked =>
    subst kept
    exact .inl (headWork_mono grown path)

variable {leaf : Uint256}

lemma descends_of_path {index : BlockMap} {above below : List Uint256} {hash : Uint256}
    (path : Path index (above ++ hash :: below)) (first : (above ++ hash :: below).head? = some leaf) :
    Descends index hash leaf := by
  induction above generalizing leaf with
  | nil =>
    cases first
    exact .start
  | cons next rest ih =>
    cases first
    obtain ⟨⟨pindex, found, link⟩, path⟩ := path
    cases up : (rest ++ hash :: below).head? with
    | none => simp at up
    | some parent => exact .child found (link.trans up) (ih path up) rfl

lemma invalid_of_descends {u : BlockTree} {start hash : Uint256} {pindex : CBlockIndex}
    (below : Descends u.mapBlockIndex start hash)
    (found : (u.markBlockAsFailed start).mapBlockIndex.lookup hash = some pindex) : pindex.isInvalid = true := by
  obtain ⟨old, -, rfl⟩ := map_eq_some_iff.mp (((lookup_markBlockAsFailed u start hash).2 below).symm.trans found)
  exact isInvalid_raise _ (failureFlag_failing start hash).2 old

variable {entry : CBlockIndex}

/-- A block that was valid and no longer is leaves fewer valid blocks. -/
lemma validBlocks_ssubset {before after : BlockMap} (kept : FailuresKept before after)
    (found : before.lookup leaf = some entry) (valid : entry.isInvalid = false)
    (failed : ∀ pindex, after.lookup leaf = some pindex → pindex.isInvalid = true) :
    validBlocks after ⊂ validBlocks before := by
  refine Finset.ssubset_iff_subset_ne.mpr ⟨validBlocks_subset kept, fun same => ?_⟩
  have member : leaf ∈ validBlocks after := same ▸ mem_validBlocks.mpr ⟨entry, found, valid⟩
  obtain ⟨pindex, at_, still⟩ := mem_validBlocks.mp member
  rw [failed pindex at_] at still
  cases still

def Turn.Progresses (s : CChainState) : Turn → Prop
  | .again t => Grown t.toBlockTree ∧ validBlocks t.mapBlockIndex ⊂ validBlocks s.mapBlockIndex ∧ s.tipWork ≤ t.tipWork
  | .ended _ t => s.tipWork ≤ t.tipWork ∨ t.chainNeedsRebuild = true

lemma keepsTip_false {pindexTip : CBlockIndex} {tip : Uint256} (moves : s.keepsTip env clock entry = false)
    (atTip : s.pindexTip = some tip) (found : s.mapBlockIndex.lookup tip = some pindexTip) :
    pindexTip.nChainWork.toNat ≤ entry.nChainWork.toNat := by
  simp only [keepsTip, atTip, bind_some, getBlockIndex, found, Bool.or_eq_false_iff] at moves
  have notGreater := mt (chainWorkGreaterThan_iff _ _).mpr (Bool.eq_false_iff.mp moves.1)
  omega

section

variable (grown : Grown s.toBlockTree)

include grown

section

variable (found : s.mapBlockIndex.lookup leaf = some entry) (valid : entry.isInvalid = false)

include found valid

/-- Marking an ancestor of the selected block makes the turn count. -/
lemma progresses_marked {violating : Uint256} (violates : violating ∈ (s.ancestry (some leaf)).map Prod.fst) :
    Turn.Progresses s (.again (s.withTree (s.toBlockTree.markBlockAsFailed violating))) := by
  have kept := FailuresKept.markBlockAsFailed s.toBlockTree violating
  have seated : Seated s (s.withTree (s.toBlockTree.markBlockAsFailed violating)) s.activeChain :=
    ⟨(seated_grown grown).tip, kept⟩
  obtain ⟨above, below, split⟩ := append_of_mem violates
  have path := path_ancestry grown.stepped (some leaf)
  have first := head_ancestry grown.stepped found
  rw [split] at path first
  refine ⟨seated.grown grown (path_ancestry grown.stepped s.pindexTip), ?_, ?_⟩
  · exact validBlocks_ssubset kept found valid fun pindex at_ => invalid_of_descends (descends_of_path path first) at_
  · rw [seated.tipWork_eq, (seated_grown grown).tipWork_eq]

lemma progresses_step (moves : s.keepsTip env clock entry = false)
    (result : s.activateBestChainStep env world clock leaf block = (exit, t)) :
    (s.tipWork ≤ t.tipWork ∨ t.chainNeedsRebuild = true) ∧
      (exit.returns = true → exit.invalidFound = true → Turn.Progresses s (.again t)) := by
  have heavier : s.tipWork ≤ headWork s.mapBlockIndex ((s.ancestry (some leaf)).map Prod.fst) := by
    have own : headWork s.mapBlockIndex ((s.ancestry (some leaf)).map Prod.fst) = entry.nChainWork.toNat := by
      simp [headWork, head_ancestry grown.stepped found, found]
    rw [own]
    cases atTip : s.pindexTip with
    | none => simp [tipWork, atTip]
    | some tip =>
      obtain ⟨pindexTip, foundTip⟩ := grown.tip tip atTip
      simpa [tipWork, atTip, getBlockIndex, foundTip] using keepsTip_false moves atTip foundTip
  obtain ⟨off, on, base, chain, old, new, seated, path, ends⟩ :=
    (seated_stepping env world s).activateBestChainStep grown.stepped
    (seated_grown grown) (path_ancestry grown.stepped s.pindexTip) (path_ancestry grown.stepped (some leaf)) result
  rw [(seated_grown grown).tipWork_eq, old, new] at heavier
  have works := headWork_of_ends grown path heavier ends
  rw [← old, ← (seated_grown grown).tipWork_eq, ← seated.tipWork_eq] at works
  refine ⟨works.imp_right And.left, fun returns invalid => ?_⟩
  cases ends with
  | idle stays => rw [stays] at invalid; cases invalid
  | switched => cases invalid
  | rebuild flagged stops => rw [stops] at returns; cases returns
  | unread kept split => cases returns
  | @refused _ above below hash kept split u marked =>
    refine ⟨seated.grown grown path, ?_, works.resolve_right fun flagged => by cases flagged.2⟩
    refine validBlocks_ssubset seated.kept found valid fun pindex at_ => ?_
    -- the tree in which the block was marked is still the same tree
    have pathNew : Path s.mapBlockIndex (above ++ hash :: (below ++ base)) := by
      have whole := path_ancestry grown.stepped (some leaf)
      rwa [new, split, append_assoc] at whole
    have same : Relabelled (fun _ => False) s.mapBlockIndex u.mapBlockIndex := by
      intro key
      refine ⟨?_, False.elim⟩
      rw [← (seated.kept.relabelled key).1, marked]
      exact ((FailuresKept.markBlockAsFailed u hash).relabelled key).1.symm
    have first := head_ancestry grown.stepped found
    rw [new, split, append_assoc] at first
    rw [marked] at at_
    exact invalid_of_descends (descends_of_path (same.path pathNew) first) at_

end

lemma activationTurn_progresses (env : Env) (world : World) (clock : Nat → Int) (block : CBlock) :
    Turn.Progresses s (s.activationTurn env world clock block) := by
  unfold activationTurn
  cases searched : s.findMostWorkChainImpl with
  | mk answer u =>
    obtain ⟨seated, valid⟩ := seated_search grown.stepped grown.tip searched
    have grownU := seated.grown grown (path_ancestry grown.stepped s.pindexTip)
    have sameWork : s.tipWork = (s.withTree u).tipWork := by rw [seated.tipWork_eq, (seated_grown grown).tipWork_eq]
    -- progress from the state after the search is progress from the state before it
    have later : ∀ turn, Turn.Progresses (s.withTree u) turn → Turn.Progresses s turn := by
      intro turn progresses
      cases turn with
      | again t =>
        obtain ⟨grownT, fewer, more⟩ := progresses
        exact ⟨grownT, fewer.trans_subset (validBlocks_subset seated.kept), sameWork ▸ more⟩
      | ended returns t => exact progresses.imp_left fun more => sameWork ▸ more
    have still : ∀ returns, Turn.Progresses s (.ended returns (s.withTree u)) := fun _ => .inl sameWork.le
    cases answer with
    | none => exact still true
    | some leaf =>
      dsimp only
      split
      · exact still true
      next entry found =>
        have validLeaf := valid leaf entry rfl found
        split
        · exact still true
        split
        · exact still true
        next moves =>
          split
          next violating violated =>
            refine later _ (progresses_marked grownU found validLeaf ?_)
            exact (takeWhile_sublist _).subset (mem_of_find?_eq_some violated)
          · cases step : (s.withTree u).activateBestChainStep env world clock leaf block with
            | mk exit t =>
              obtain ⟨works, retried⟩ := progresses_step grownU found validLeaf (Bool.eq_false_iff.mpr moves) step
              split
              · exact later _ works
              next returns =>
                split
                next invalid => exact later _ (retried (by simpa using returns) invalid)
                · exact later _ works

end

/-- The loop ends within as many turns as there are valid blocks, and one more. -/
lemma activationLoop_ends (env : Env) (world : World) (clock : Nat → Int) (block : CBlock)
    (grown : Grown s.toBlockTree) :
    ∃ returns t, (∀ fuel, (validBlocks s.mapBlockIndex).card < fuel →
        activationLoop env world clock block fuel s = some (returns, t)) ∧
      (s.tipWork ≤ t.tipWork ∨ t.chainNeedsRebuild = true) := by
  induction size : (validBlocks s.mapBlockIndex).card using Nat.strong_induction_on generalizing s with
  | _ size ih =>
    have progresses := activationTurn_progresses grown env world clock block
    cases turn : s.activationTurn env world clock block with
    | ended returns t =>
      rw [turn] at progresses
      refine ⟨returns, t, fun fuel enough => ?_, progresses⟩
      obtain ⟨fuel, rfl⟩ := Nat.exists_eq_succ_of_ne_zero (Nat.ne_zero_of_lt enough)
      rw [activationLoop, turn]
    | again next =>
      rw [turn] at progresses
      obtain ⟨grownNext, fewer, more⟩ := progresses
      have fewerBlocks := Finset.card_lt_card fewer
      obtain ⟨returns, t, ends, works⟩ := ih _ (size ▸ fewerBlocks) grownNext rfl
      refine ⟨returns, t, fun fuel enough => ?_, works.imp_left more.trans⟩
      obtain ⟨fuel, rfl⟩ := Nat.exists_eq_succ_of_ne_zero (Nat.ne_zero_of_lt enough)
      rw [activationLoop, turn]
      exact ends fuel (by omega)

lemma announceTip_tree (s : CChainState) : s.announceTip.toBlockTree = s.toBlockTree ∧
    s.announceTip.chainNeedsRebuild = s.chainNeedsRebuild := by
  unfold announceTip
  split <;> exact ⟨rfl, rfl⟩

/-- On every block tree, whatever the disk and the checks answer, the call returns after at most one more
turn of the loop than there are index entries, with at least the work it began with unless the node asks
to be rebuilt. -/
theorem activateBestChainNew_returns_with_work (env : Env) (world : World) (clock : Nat → Int)
    (s : CChainState) (pindexNew : Uint256)
    (block : CBlock) (grown : Grown s.toBlockTree) :
    ∃ result, (∀ fuel, s.mapBlockIndex.keys.length < fuel →
        activateBestChainNew env world clock fuel s pindexNew block = some result) ∧
      (s.tipWork ≤ result.state.tipWork ∨ result.state.chainNeedsRebuild = true) := by
  unfold activateBestChainNew
  split
  · exact ⟨⟨false, false, s⟩, fun _ _ => rfl, .inl le_rfl⟩
  next entry found =>
    split
    · exact ⟨⟨false, false, s⟩, fun _ _ => rfl, .inl le_rfl⟩
    · have offered : Quiet s (s.withTree (s.toBlockTree.insertCandidate pindexNew entry)) := by
        unfold insertCandidate
        split <;> exact ⟨rfl, rfl, id⟩
      have seated := (seated_grown grown).quiet offered
      have grownOffered := seated.grown grown (path_ancestry grown.stepped s.pindexTip)
      obtain ⟨returns, t, ends, works⟩ := activationLoop_ends env world clock block grownOffered
      have few : (validBlocks (s.withTree (s.toBlockTree.insertCandidate pindexNew entry)).mapBlockIndex).card ≤
          s.mapBlockIndex.keys.length := by
        rw [offered.index]
        exact (Finset.card_filter_le _ _).trans (toFinset_card_le _)
      rw [seated.tipWork_eq, ← (seated_grown grown).tipWork_eq] at works
      refine ⟨if returns then ⟨true, decide (t.pindexTip ≠ s.pindexTip), t.announceTip⟩ else ⟨false, false, t⟩,
        fun fuel enough => by rw [ends fuel (few.trans_lt enough), map_some], ?_⟩
      cases returns with
      | false => exact works
      | true =>
        obtain ⟨tree, flag⟩ := announceTip_tree t
        rw [if_pos rfl]
        rwa [tree, flag]

lemma forkState_grown : Grown forkState.toBlockTree := by
  have worked : ∀ hash pindex, forkState.mapBlockIndex.lookup hash = some pindex → ∀ parent ∈ pindex.pprev,
      ∀ above ∈ forkState.mapBlockIndex.lookup parent, above.nChainWork.toNat ≤ pindex.nChainWork.toNat :=
    Table.forall_lookup (fun _ (pindex : CBlockIndex) => ∀ parent ∈ pindex.pprev, ∀ above ∈
      forkState.mapBlockIndex.lookup parent,
      above.nChainWork.toNat ≤ pindex.nChainWork.toNat) (by decide)
  refine ⟨forkState_active.stepped, ?_, ?_⟩
  · intro hash pindex parent above found link atParent
    exact worked hash pindex found parent link above atParent
  · intro hash atTip
    cases atTip
    exact ⟨_, rfl⟩

/-- On the fork of two blocks against one five turns are enough. -/
theorem activateBestChainNew_returns_on_fork : ∃ result,
    activateBestChainNew forkEnv (refusingWorld 25) (fun _ => 0) 5 forkState forkRival
      (forkBlock (some forkRivalParent) 3) =
      some result ∧ (forkState.tipWork ≤ result.state.tipWork ∨ result.state.chainNeedsRebuild = true) := by
  obtain ⟨result, returns, works⟩ :=
    activateBestChainNew_returns_with_work forkEnv (refusingWorld 25) (fun _ => 0) forkState
    forkRival (forkBlock (some forkRivalParent) 3) forkState_grown
  exact ⟨result, returns 5 (by decide), works⟩

end CChainState

end Dilithion
