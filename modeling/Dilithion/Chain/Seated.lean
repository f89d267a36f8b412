import Dilithion.Chain.Marking

/-! Following a step of the new selector. An invariant that relates the state to the list of blocks below
the tip is carried through the step once it is known how the two moves change it. Unlike a
reorganisation on the default path, a step that stops early is not rolled back: it leaves the chain where
it got to. -/

namespace Dilithion.CChainState

open Lib BlockTree CChainState List

structure Quiet (s t : CChainState) : Prop where
  index : t.mapBlockIndex = s.mapBlockIndex
  tip : t.pindexTip = s.pindexTip
  rebuild : s.chainNeedsRebuild = true → t.chainNeedsRebuild = true

lemma Quiet.refl (s : CChainState) : Quiet s s := ⟨rfl, rfl, id⟩

lemma Quiet.trans {s t u : CChainState} (first : Quiet s t) (second : Quiet t u) : Quiet s u :=
  ⟨second.index.trans first.index, second.tip.trans first.tip, second.rebuild ∘ first.rebuild⟩

lemma Logged.quiet {s t : CChainState} (logged : Logged s t) : Quiet s t := by
  obtain ⟨asked, wal, rfl⟩ := logged
  exact ⟨rfl, rfl, id⟩

section

variable (env : Env) (world : World) (clock : Nat → Int) (s : CChainState)

variable {t : CChainState}

lemma quiet_walCall {call : CReorgWAL → WalWrite → Bool × CReorgWAL} {ok : Bool}
    (result : s.walCall world .forward call = (ok, t)) : Quiet s t := by
  have logged := (logged_walCall world .forward s call).quiet
  rwa [result] at logged

lemma quiet_readable {hashes : List Uint256} {ok : Bool} (result : s.readable world hashes = (ok, t)) :
    Quiet s t := by
  have logged := (logged_readable world hashes s).quiet
  rwa [result] at logged

lemma quiet_walEnd (stage : Stage) (finish : CReorgWAL → Bool → CReorgWAL) : Quiet s (s.walEnd world stage finish) := by
  unfold walEnd
  split
  · exact .refl s
  · exact ⟨rfl, rfl, id⟩

lemma quiet_persistTip : Quiet s (s.persistTip world).2 := by
  unfold persistTip writeBestBlock
  split
  · exact .refl s
  · split <;> exact ⟨rfl, rfl, id⟩

lemma quiet_maybeAnchorVdfGrace (hash : Uint256) : Quiet s (s.maybeAnchorVdfGrace env clock hash) := by
  unfold maybeAnchorVdfGrace
  split
  · exact .refl s
  · split <;> exact ⟨rfl, rfl, id⟩

lemma quiet_prune : Quiet s (s.withTree s.toBlockTree.pruneBlockIndexCandidates) := by
  unfold pruneBlockIndexCandidates
  split <;> exact ⟨rfl, rfl, id⟩

lemma quiet_giveUp : Quiet s (s.giveUp world) :=
  ⟨(quiet_walEnd world s .forward _).index, (quiet_walEnd world s .forward _).tip, fun _ => rfl⟩

lemma quiet_stopStep (disconnected : Bool) : Quiet s (s.stopStep world disconnected) := by
  unfold stopStep
  split
  · exact quiet_giveUp world s
  · exact quiet_walEnd world s _ _

lemma rebuild_giveUp : (s.giveUp world).chainNeedsRebuild = true := rfl

lemma quiet_blockFor {block : CBlock} {hash : Uint256} {read : Option CBlock}
    (result : s.blockFor env world block hash = (read, t)) : Quiet s t := by
  unfold blockFor at result
  split at result
  · cases result
    exact .refl s
  · obtain ⟨rfl, -⟩ := readBlock_cases world .forward s result
    exact (Logged.after s _).quiet

end

/-- How the moves of a step change the invariant `P`, for chains that are `good`. -/
structure Stepping (env : Env) (world : World) (P : CChainState → List Uint256 → Prop)
    (good : List Uint256 → Prop) : Prop where
  shorten : ∀ {hash chain}, good (hash :: chain) → good chain
  quiet : ∀ {s t chain}, P s chain → Quiet s t → P t chain
  disconnect : ∀ {s t chain hash}, P s (hash :: chain) → good (hash :: chain) →
    s.disconnectTip env world .forward hash = (true, t) → P (t.rewindTip hash) chain
  disconnect_failed : ∀ {s t chain hash}, P s (hash :: chain) → s.disconnectTip env world .forward hash = (false, t) →
    P t (hash :: chain)
  connect : ∀ {s t chain hash block}, P s chain → good (hash :: chain) →
    s.connectTip env world .forward hash block false = (true, t) → P (t.setTip hash) (hash :: chain)
  connect_failed : ∀ {s t chain hash block}, P s chain → good (hash :: chain) →
    s.connectTip env world .forward hash block false = (false, t) →
    P (t.withTree (t.toBlockTree.markBlockAsFailed hash)) chain

/-- The chain a step ends on. Without a request to be rebuilt it has not disconnected anything unless it
got all the way. -/
inductive Ends (off on base : List Uint256) : StepExit → CChainState → List Uint256 → Prop where
  | idle {exit : StepExit} {t : CChainState} (stays : exit.invalidFound = false) : Ends off on base exit t (off ++ base)
  | switched {t : CChainState} : Ends off on base .switched t (on ++ base)
  | rebuild {exit : StepExit} {t : CChainState} {chain : List Uint256} (flagged : t.chainNeedsRebuild = true)
      (stops : exit.returns = false) : Ends off on base exit t chain
  | unread {t : CChainState} {above below : List Uint256} (kept : off = []) (split : on = above ++ below) :
      Ends off on base .readFailed t (below ++ base)
  | refused {t : CChainState} {above below : List Uint256} {hash : Uint256} (kept : off = [])
      (split : on = above ++ hash :: below) (u : BlockTree)
        (marked : t.mapBlockIndex = (u.markBlockAsFailed hash).mapBlockIndex) :
      Ends off on base (.connectFailed false) t (below ++ base)

/-- The chain below the tip and the chain below the block have what lies below the fork in common. -/
lemma pathUntil_split {t : BlockTree} (stepped : Stepped t.mapBlockIndex) (hash : Uint256) :
    ∃ base, t.activeChain = t.pathUntil t.pindexTip (t.forkWithTip hash) ++ base ∧
      (t.ancestry (some hash)).map Prod.fst = t.pathUntil (some hash) (t.forkWithTip hash) ++ base := by
  cases forked : t.forkWithTip hash with
  | none =>
    have all : ∀ start, t.pathUntil start none = (t.ancestry start).map Prod.fst := fun start =>
      takeWhile_eq_self_iff.mpr (by simp)
    exact ⟨[], by rw [all, append_nil, activeChain], by rw [all, append_nil]⟩
  | some fork =>
    obtain ⟨tip, atTip, found⟩ := Option.bind_eq_some_iff.mp forked
    have meets := findFork_meets stepped found
    have cut : ∀ start, (∃ entry ∈ t.ancestry start, entry.1 = fork) →
        (t.ancestry start).map Prod.fst = t.pathUntil start (some fork) ++ (t.ancestry (some fork)).map Prod.fst := by
      intro start inside
      have above_eq : t.pathUntil start (some fork) = (above (t.ancestry start) fork).map Prod.fst := by
        simp only [pathUntil, ne_eq, Option.some.injEq]
        exact takeWhile_map ..
      rw [above_eq, ← map_append, ← ancestry_split stepped inside]
    refine ⟨(t.ancestry (some fork)).map Prod.fst, ?_, cut _ meets.onRight⟩
    rw [activeChain, atTip]
    exact cut _ meets.onLeft

section

variable {env : Env} {world : World} {clock : Nat → Int} {P : CChainState → List Uint256 → Prop}
  {good : List Uint256 → Prop}
  (stepping : Stepping env world P good) {s t : CChainState} {base : List Uint256}

include stepping

/-- Fewer chains count as good, as long as what lies below one does. -/
lemma Stepping.restrict {finer : List Uint256 → Prop} (isGood : ∀ {chain}, finer chain → good chain)
    (shorten : ∀ {hash chain}, finer (hash :: chain) → finer chain) : Stepping env world P finer where
  shorten := shorten
  quiet := stepping.quiet
  disconnect holds isFiner := stepping.disconnect holds (isGood isFiner)
  disconnect_failed := stepping.disconnect_failed
  connect holds isFiner := stepping.connect holds (isGood isFiner)
  connect_failed holds isFiner := stepping.connect_failed holds (isGood isFiner)

lemma Stepping.drop {above chain : List Uint256} (isGood : good (above ++ chain)) : good chain := by
  induction above with
  | nil => exact isGood
  | cons hash rest ih => exact ih (stepping.shorten isGood)

/-- All blocks are disconnected, or the node asks to be rebuilt. -/
lemma Stepping.stepDisconnect (count : Nat) (off : List Uint256) (holds : P s (off ++ base))
    (isGood : good (off ++ base)) :
    match s.stepDisconnect env world count off with
    | .ok t => P t base
    | .error (exit, t) => t.chainNeedsRebuild = true ∧ exit.returns = false ∧ ∃ chain, P t chain ∧ good chain := by
  induction off generalizing s count with
  | nil => exact holds
  | cons hash rest ih =>
    rw [stepDisconnect]
    cases step : s.disconnectTip env world .forward hash with
    | mk ok moved =>
      cases ok with
      | false =>
        have left := stepping.disconnect_failed holds step
        exact ⟨rebuild_giveUp world moved, rfl, _, stepping.quiet left (quiet_giveUp world moved), isGood⟩
      | true =>
        have below := stepping.disconnect holds isGood step
        have recorded := stepping.quiet below (quiet_persistTip world (moved.rewindTip hash))
        have goodRest := stepping.shorten isGood
        dsimp only
        generalize (moved.rewindTip hash).persistTip world = persisted at recorded
        obtain ⟨written, kept⟩ := persisted
        cases written with
        | false => exact ⟨rebuild_giveUp world kept, rfl, _,
            stepping.quiet recorded (quiet_giveUp world kept), goodRest⟩
        | true => exact ih (count + 1) (stepping.quiet recorded (logged_walCall ..).quiet) goodRest

lemma Stepping.stepConnect (clock : Nat → Int) (block : CBlock) (off : List Uint256) {on : List Uint256} (count : Nat)
    (done rest : List Uint256) (split : on = rest.reverse ++ done) (holds : P s (done ++ base))
    (isGood : good (on ++ base)) :
    match s.stepConnect env world clock block (!off.isEmpty) count rest with
    | .ok t => P t (on ++ base)
    | .error (exit, t) => ∃ chain, P t chain ∧ good chain ∧ Ends off on base exit t chain := by
  induction rest generalizing s count done with
  | nil =>
    rw [split]
    exact holds
  | cons hash rest ih =>
    have next : on = rest.reverse ++ (hash :: done) := by rw [split, reverse_cons, append_assoc, singleton_append]
    have goodHere : good (hash :: (done ++ base)) := by
      rw [next, append_assoc] at isGood
      exact stepping.drop isGood
    have goodDone := stepping.shorten goodHere
    have stops : ∀ (u : CChainState), off ≠ [] → (u.stopStep world (!off.isEmpty)).chainNeedsRebuild = true := by
      intro u some_
      simp [stopStep, some_, rebuild_giveUp]
    rw [stepConnect]
    cases obtained : s.blockFor env world block hash with
    | mk read asking =>
      have asked := stepping.quiet holds (quiet_blockFor env world s obtained)
      cases read with
      | none =>
        refine ⟨_, stepping.quiet asked (quiet_stopStep world asking _), goodDone, ?_⟩
        by_cases kept : off = []
        · exact .unread kept split
        · exact .rebuild (stops asking kept) rfl
      | some connectBlock =>
        dsimp only
        cases step : asking.connectTip env world .forward hash connectBlock false with
        | mk ok moved =>
          cases ok with
          | false =>
            have left := stepping.connect_failed asked goodHere step
            refine ⟨_, stepping.quiet left (quiet_stopStep world _ _), goodDone, ?_⟩
            by_cases kept : off = []
            · have stopped := (quiet_stopStep world
                (moved.withTree (moved.toBlockTree.markBlockAsFailed hash)) false).index
              subst kept
              exact .refused rfl next moved.toBlockTree stopped
            · exact .rebuild (stops _ kept) (by simp [kept, StepExit.returns])
          | true =>
            have higher := stepping.connect asked goodHere step
            have anchored := stepping.quiet higher (quiet_maybeAnchorVdfGrace env clock (moved.setTip hash) hash)
            have recorded := stepping.quiet anchored (quiet_persistTip world _)
            dsimp only
            generalize ((moved.setTip hash).maybeAnchorVdfGrace env clock hash).persistTip world = persisted at recorded
            obtain ⟨written, kept⟩ := persisted
            cases written with
            | false =>
              exact ⟨_, stepping.quiet recorded (quiet_giveUp world kept), goodHere,
                .rebuild (rebuild_giveUp world kept) rfl⟩
            | true =>
              exact ih (count + 1) (hash :: done) next
                (stepping.quiet (stepping.quiet recorded (logged_walCall ..).quiet) (quiet_prune _))

variable {exit : StepExit}

lemma Stepping.moveTip {block : CBlock} {off on : List Uint256} (holds : P s (off ++ base))
    (goodOld : good (off ++ base)) (goodNew : good (on ++ base))
    (result : s.moveTip env world clock block off on.reverse = (exit, t)) :
    ∃ chain, P t chain ∧ good chain ∧ Ends off on base exit t chain := by
  unfold CChainState.moveTip at result
  dsimp only at result
  have disconnecting := stepping.stepDisconnect 0 off
    (stepping.quiet holds (logged_walCall world .forward s CReorgWAL.enterDisconnectPhase).quiet) goodOld
  split at result
  next failed stopped =>
    rw [stopped] at disconnecting
    subst result
    obtain ⟨flagged, stops, chain, left, isGood⟩ := disconnecting
    exact ⟨chain, left, isGood, .rebuild flagged stops⟩
  next between done =>
    rw [done] at disconnecting
    have connecting := stepping.stepConnect clock block off 0 [] on.reverse (append_nil _ ▸ on.reverse_reverse.symm)
      (stepping.quiet disconnecting (logged_walCall world .forward between CReorgWAL.enterConnectPhase).quiet) goodNew
    split at result
    next failed stopped =>
      rw [stopped] at connecting
      subst result
      exact connecting
    next reached finished =>
      rw [finished] at connecting
      cases result
      have recorded := stepping.quiet connecting (quiet_persistTip world reached)
      exact ⟨_, stepping.quiet recorded (quiet_walEnd world _ _ _), goodNew, .switched⟩

lemma Stepping.activateBestChainStep {pindexMostWork : Uint256} {block : CBlock}
    (stepped : Stepped s.mapBlockIndex) (holds : P s s.activeChain) (goodOld : good s.activeChain)
    (goodNew : good ((s.ancestry (some pindexMostWork)).map Prod.fst))
    (result : s.activateBestChainStep env world clock pindexMostWork block = (exit, t)) :
    ∃ off on base chain, s.activeChain = off ++ base ∧ (s.ancestry (some pindexMostWork)).map Prod.fst = on ++ base ∧
      P t chain ∧ good chain ∧ Ends off on base exit t chain := by
  obtain ⟨base, old, new⟩ := pathUntil_split stepped pindexMostWork
  rw [old] at holds goodOld
  rw [new] at goodNew
  simp only [CChainState.activateBestChainStep] at result
  generalize s.pathUntil s.pindexTip (s.forkWithTip pindexMostWork) = off at *
  generalize s.pathUntil (some pindexMostWork) (s.forkWithTip pindexMostWork) = on at *
  suffices ∃ chain, P t chain ∧ good chain ∧ Ends off on base exit t chain by
    obtain ⟨chain, rest⟩ := this
    exact ⟨off, on, base, chain, old, new, rest⟩
  have idle : ∀ {other : CChainState} {early : StepExit}, (early, other) = (exit, t) →
      early.invalidFound = false → Quiet s other →
      ∃ chain, P t chain ∧ good chain ∧ Ends off on base exit t chain := by
    intro other early same stays quiet
    cases same
    exact ⟨_, stepping.quiet holds quiet, goodOld, .idle stays⟩
  split at result
  · exact idle result rfl (.refl s)
  · split at result
    · cases result
      exact ⟨_, stepping.quiet holds ⟨rfl, rfl, fun _ => rfl⟩, goodOld, .rebuild rfl rfl⟩
    · split at result
      next unread read => exact idle result rfl (quiet_readable world s read)
      next checked read =>
        have asked := quiet_readable world s read
        split at result
        next refused begun => exact idle result rfl (asked.trans (quiet_walCall world checked begun))
        next written begun =>
          exact stepping.moveTip (stepping.quiet holds (asked.trans (quiet_walCall world checked begun))) goodOld
            goodNew result

end

end Dilithion.CChainState

namespace Dilithion

open Lib BlockTree CBlockIndex

namespace CBlockIndex

variable {a b : CBlockIndex}

lemma nChainWork_of_bare (same : a.bare = b.bare) : a.nChainWork = b.nChainWork :=
  (mk.inj same).2.2.2.2.1

lemma isInvalid_of_core (same : a.core = b.core) : a.isInvalid = b.isInvalid := by
  have status : a.nStatus &&& ~~~blockConnected = b.nStatus &&& ~~~blockConnected := (mk.inj same).2.2.2.2.2.1
  have masked : ∀ pindex : CBlockIndex, pindex.nStatus &&& blockFailedMask =
      (pindex.nStatus &&& ~~~blockConnected) &&& blockFailedMask := by
    intro pindex
    rw [UInt32.and_assoc]
    rfl
  rw [isInvalid, isInvalid, masked a, masked b, status]

lemma isInvalid_raise_of_invalid (flags : UInt32) {pindex : CBlockIndex} (invalid : pindex.isInvalid = true) :
    (pindex.raise flags).isInvalid = true := by
  rw [isInvalid, decide_eq_true_eq] at invalid ⊢
  rw [status_raise, Ne, UInt32.or_eq_zero_iff]
  exact fun both => invalid both.1

end CBlockIndex

structure FailuresKept (before after : BlockMap) : Prop where
  relabelled : Relabelled (fun _ => False) before after
  failed : ∀ hash old, before.lookup hash = some old → old.isInvalid = true →
    ∃ new, after.lookup hash = some new ∧ new.isInvalid = true

namespace FailuresKept

variable {before middle after : BlockMap}

lemma refl (index : BlockMap) : FailuresKept index index :=
  ⟨.refl _ index, fun _ old found invalid => ⟨old, found, invalid⟩⟩

lemma trans (first : FailuresKept before middle) (second : FailuresKept middle after) : FailuresKept before after := by
  refine ⟨first.relabelled.trans second.relabelled, fun hash old found invalid => ?_⟩
  obtain ⟨between, at_, still⟩ := first.failed hash old found invalid
  exact second.failed hash between at_ still

variable {change : Uint256 → CBlockIndex → CBlockIndex}

section

variable (at_ : ∀ key, after.lookup key = (before.lookup key).map (change key))

include at_

/-- Every entry is changed on its own, without its place in the tree and without losing a failure flag. -/
lemma of_map (bare : ∀ key entry, (change key entry).bare = entry.bare)
    (invalid : ∀ key entry, entry.isInvalid = true → (change key entry).isInvalid = true) :
    FailuresKept before after := by
  refine ⟨fun key => ⟨?_, False.elim⟩, fun hash old found failed => ?_⟩
  · rw [at_, Option.map_map]
    exact congrArg (Option.map · _) (funext (bare key))
  · exact ⟨change hash old, by rw [at_, found, Option.map_some], invalid hash old failed⟩

lemma of_core (core : ∀ key entry, (change key entry).core = entry.core) : FailuresKept before after :=
  of_map at_ (fun key entry => bare_of_core (core key entry))
    fun key entry failed => (isInvalid_of_core (core key entry)).trans failed

end

lemma of_modify {key : Uint256} {change : CBlockIndex → CBlockIndex} (bare : ∀ entry, (change entry).bare = entry.bare)
    (invalid : ∀ entry, entry.isInvalid = true → (change entry).isInvalid = true) :
    FailuresKept before (before.modify key change) := by
  have at_ : ∀ other, (before.modify key change).lookup other =
      (before.lookup other).map fun entry => if other = key then change entry else entry := by
    intro other
    rw [Table.lookup_modify]
    split <;> simp
  refine of_map at_ (fun other entry => ?_) fun other entry failed => ?_
  · split
    · exact bare entry
    · rfl
  · split
    · exact invalid entry failed
    · exact failed

lemma markBlockAsFailed (t : BlockTree) (start : Uint256) :
    FailuresKept t.mapBlockIndex (t.markBlockAsFailed start).mapBlockIndex := by
  classical
  have at_ : ∀ hash, (t.markBlockAsFailed start).mapBlockIndex.lookup hash =
      (t.mapBlockIndex.lookup hash).map fun entry =>
      if Descends t.mapBlockIndex start hash then entry.raise (failureFlag start hash) else entry := by
    intro hash
    obtain ⟨outside, inside⟩ := lookup_markBlockAsFailed t start hash
    by_cases below : Descends t.mapBlockIndex start hash
    · simp [inside below, below]
    · simp [outside below, below]
  refine of_map at_ ?_ ?_
  · intro hash entry
    split <;> rfl
  · intro hash entry failed
    split
    · exact isInvalid_raise_of_invalid _ failed
    · exact failed

lemma failLeaf (t : BlockTree) (hash : Uint256) : FailuresKept t.mapBlockIndex (t.failLeaf hash).mapBlockIndex := by
  change FailuresKept t.mapBlockIndex (t.mapBlockIndex.modify hash fun pindex =>
    if pindex.isInvalid then pindex else pindex.raise blockFailedChild)
  refine of_modify (fun entry => ?_) fun entry failed => ?_
  · split <;> rfl
  · rw [if_pos failed]
    exact failed

end FailuresKept

namespace BlockTree

lemma valid_of_clean {t : BlockTree} (stepped : Stepped t.mapBlockIndex) {hash : Uint256} {pindex : CBlockIndex}
    (clean : t.verdict hash = .clean) (found : t.mapBlockIndex.lookup hash = some pindex) :
    pindex.isInvalid = false := by
  rw [verdict, ancestry_of_lookup stepped found, walkAncestry] at clean
  split at clean
  · cases clean
  next valid => exact Bool.eq_false_iff.mpr valid

/-- The search keeps the tree and the tip, and what it selects has not failed. -/
lemma findMostWorkFrom_cases {t : BlockTree} (stepped : Stepped t.mapBlockIndex) (candidates : List Uint256) :
    (t.findMostWorkFrom candidates).2.pindexTip = t.pindexTip ∧
    FailuresKept t.mapBlockIndex (t.findMostWorkFrom candidates).2.mapBlockIndex ∧
    ∀ leaf pindex, (t.findMostWorkFrom candidates).1 = some leaf →
      (t.findMostWorkFrom candidates).2.mapBlockIndex.lookup leaf = some pindex → pindex.isInvalid = false := by
  induction candidates generalizing t with
  | nil => exact ⟨rfl, .refl _, fun _ _ nothing => by cases nothing⟩
  | cons hash rest ih =>
    rw [findMostWorkFrom]
    cases answer : t.verdict hash with
    | clean =>
      refine ⟨rfl, .refl _, fun leaf pindex selected found => ?_⟩
      cases selected
      exact valid_of_clean stepped answer found
    | missingData => exact ih stepped
    | invalidAncestor =>
      have kept := FailuresKept.failLeaf t hash
      obtain ⟨tip, keptRest, valid⟩ := ih (kept.relabelled.stepped stepped)
      exact ⟨tip, kept.trans keptRest, valid⟩

end BlockTree

namespace CChainState

/-- The tip is the first block of `chain`; apart from that only flags and forward links have changed since
`origin`. -/
structure Seated (origin s : CChainState) (chain : List Uint256) : Prop where
  tip : s.pindexTip = chain.head?
  kept : FailuresKept origin.mapBlockIndex s.mapBlockIndex

variable {env : Env} {world : World} {origin s t : CChainState} {chain : List Uint256} {hash : Uint256}

lemma quiet_recordUndoFailure (s : CChainState) (hash : Uint256) : Quiet s (s.recordUndoFailure hash) := by
  obtain ⟨failures, rebuild, counted, flagged⟩ := recordUndoFailure_eq s hash
  rw [counted]
  exact ⟨rfl, rfl, flagged⟩

lemma Seated.quiet (seated : Seated origin s chain) (quiet : Quiet s t) : Seated origin t chain :=
  ⟨quiet.tip.trans seated.tip, quiet.index ▸ seated.kept⟩

/-- Connecting a block, whether it succeeds or not, keeps the tree. -/
lemma kept_connectTip {stage : Stage} {block : CBlock} {skip ok : Bool}
    (result : s.connectTip env world stage hash block skip = (ok, t)) :
    FailuresKept s.mapBlockIndex t.mapBlockIndex := by
  cases connectTip_cases result with
  | unknown missing => exact .refl _
  | refused pindex found asked failed =>
    exact .of_modify (fun _ => rfl) fun _ => isInvalid_raise_of_invalid _
  | inapplicable pindex found asked set stopped => exact .refl _
  | linked pindex found asked set applied =>
    rw [linkTip_tree]
    exact .of_core (fun _ => lookup_linkIndex) fun _ => core_linkEntry

lemma kept_disconnectTip {stage : Stage} {ok : Bool} (result : s.disconnectTip env world stage hash = (ok, t)) :
    FailuresKept s.mapBlockIndex t.mapBlockIndex := by
  cases disconnectTip_cases result with
  | unknown missing => exact .refl _
  | unread nothing asked => exact .refl _
  | irreversible pindex found asked block kept set stopped =>
    rw [(quiet_recordUndoFailure ((s.after asked).stored set) hash).index]
    exact .refl _
  | unlinked pindex found asked block kept set undone =>
    rw [unlinkTip_tree]
    exact .of_core (fun _ => lookup_unlinkIndex) fun _ => core_unlinkEntry

lemma seated_stepping (env : Env) (world : World) (origin : CChainState) :
    Stepping env world (Seated origin) (Path origin.mapBlockIndex) where
  shorten path := path.2
  quiet seated quiet := seated.quiet quiet
  disconnect := by
    intro s t chain hash seated path result
    have kept := seated.kept.trans (kept_disconnectTip result)
    refine ⟨?_, kept⟩
    obtain ⟨⟨entry, at_, link⟩, -⟩ := kept.relabelled.path path
    simp [rewindTip, getBlockIndex, at_, link]
  disconnect_failed := by
    intro s t chain hash seated result
    have kept := seated.kept.trans (kept_disconnectTip result)
    refine ⟨?_, kept⟩
    cases disconnectTip_cases result with
    | unknown missing => exact seated.tip
    | unread nothing asked => exact seated.tip
    | irreversible pindex found asked block kept set stopped =>
      exact (quiet_recordUndoFailure ((s.after asked).stored set) hash).tip.trans seated.tip
  connect := by
    intro s t chain hash block seated path result
    have kept := seated.kept.trans (kept_connectTip result)
    exact ⟨rfl, kept⟩
  connect_failed := by
    intro s t chain hash block seated path result
    refine ⟨?_, (seated.kept.trans (kept_connectTip result)).trans (.markBlockAsFailed t.toBlockTree hash)⟩
    cases connectTip_cases result with
    | unknown missing => exact seated.tip
    | refused pindex found asked failed => exact seated.tip
    | inapplicable pindex found asked set stopped => exact seated.tip

section

variable (stepped : Stepped s.mapBlockIndex)
  (tip : ∀ hash, s.pindexTip = some hash → ∃ pindex, s.mapBlockIndex.lookup hash = some pindex)

include stepped tip

lemma seated_refl : Seated s s s.activeChain := by
  refine ⟨?_, .refl _⟩
  cases atTip : s.pindexTip with
  | none => simp [activeChain, atTip, ancestry]
  | some hash =>
    obtain ⟨pindexTip, found⟩ := tip hash atTip
    rw [activeChain_of_tip stepped atTip found]
    rfl

lemma seated_search {answer : Option Uint256} {u : BlockTree} (searched : s.findMostWorkChainImpl = (answer, u)) :
    Seated s (s.withTree u) s.activeChain ∧
      ∀ leaf pindex, answer = some leaf → u.mapBlockIndex.lookup leaf = some pindex → pindex.isInvalid = false := by
  obtain ⟨sameTip, kept, valid⟩ := findMostWorkFrom_cases stepped s.setBlockIndexCandidates
  have same : s.toBlockTree.findMostWorkFrom s.setBlockIndexCandidates = (answer, u) := searched
  rw [same] at sameTip kept valid
  exact ⟨⟨sameTip.trans (seated_refl stepped tip).tip, kept⟩, valid⟩

end

end CChainState

end Dilithion
