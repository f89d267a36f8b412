import Dilithion.Chain.Moves

/-! Following a reorganisation. An invariant that relates the state to the list of blocks connected so far,
tip first, is carried through the loops of a reorganisation and its rollback once it is known how the two
moves change it: connecting pushes a block, disconnecting pops it, a failed move leaves the list alone. -/

namespace Dilithion.CChainState

open CChainState List

/-- The change that `failRemaining` makes to each entry. -/
def failChild (pindex : CBlockIndex) : CBlockIndex :=
  if pindex.isInvalid then pindex else pindex.raise CBlockIndex.blockFailedChild

/-- How the moves change the invariant `P`, in stages that are `safe`, for chains that are `good`, blocks that may be
flagged as failed because they are `exposed`, and bodies that a hash is known to have. -/
structure Tracking (env : Env) (world : World) (safe : Stage → Prop) (P : CChainState → List Uint256 → Prop)
    (good : List Uint256 → Prop) (exposed : Uint256 → Prop) (body : Uint256 → CBlock → Prop) : Prop where
  shorten : ∀ {hash chain}, good (hash :: chain) → good chain
  logged : ∀ {s t chain}, P s chain → Logged s t → P t chain
  ended : ∀ {s chain} stage finish, P s chain → P (s.walEnd world stage finish) chain
  stored : ∀ {s chain hash block}, P s chain → s.blocks.lookup hash = some block → body hash block
  connect : ∀ {stage s t chain hash block skip}, safe stage → P s chain → good (hash :: chain) → body hash block →
    s.connectTip env world stage hash block skip = (true, t) → P t (hash :: chain)
  connect_failed : ∀ {stage s t chain hash block skip}, safe stage → P s chain → good (hash :: chain) →
    exposed hash → body hash block →
    s.connectTip env world stage hash block skip = (false, t) → P t chain
  disconnect : ∀ {stage s t chain hash}, safe stage → P s (hash :: chain) → good (hash :: chain) →
    s.disconnectTip env world stage hash = (true, t) → P t chain
  disconnect_failed : ∀ {stage s t chain hash}, safe stage → P s (hash :: chain) → good (hash :: chain) →
    s.disconnectTip env world stage hash = (false, t) → P t (hash :: chain)
  failChild : ∀ {s chain hash}, P s chain → exposed hash → P (s.modifyIndex hash failChild) chain

section

variable {env : Env} {world : World} {P : CChainState → List Uint256 → Prop} {good : List Uint256 → Prop}
  {safe : Stage → Prop} {exposed : Uint256 → Prop} {body : Uint256 → CBlock → Prop}
  (tracking : Tracking env world safe P good exposed body) {s t : CChainState} {chain : List Uint256}

include tracking

lemma Tracking.drop {above : List Uint256} (isGood : good (above ++ chain)) : good chain := by
  induction above with
  | nil => exact isGood
  | cons hash rest ih => exact ih (tracking.shorten isGood)

lemma Tracking.failRemaining {remaining : List Uint256} (holds : P s chain) (all : ∀ hash ∈ remaining, exposed hash) :
    P (s.failRemaining remaining) chain := by
  induction remaining generalizing s with
  | nil => exact holds
  | cons hash rest ih =>
    have step := tracking.failChild holds (all hash mem_cons_self)
    exact ih step fun other member => all other (mem_cons_of_mem _ member)

variable {items : List Uint256}

lemma Tracking.disconnectAgain (back : safe .rollback) (holds : P s (items ++ chain)) (isGood : good (items ++ chain))
    (result : s.disconnectAgain env world items = (true, t)) : P t chain := by
  induction items generalizing s with
  | nil => cases result; exact holds
  | cons hash rest ih =>
    rw [disconnectAgain] at result
    split at result
    · cases result
    next moved step => exact ih (tracking.disconnect back holds isGood step) (tracking.shorten isGood) result

lemma Tracking.reconnectAll (back : safe .rollback) (holds : P s chain) (isGood : good (items.reverse ++ chain))
    (result : s.reconnectAll env world items = (true, t)) : P t (items.reverse ++ chain) := by
  induction items generalizing s chain with
  | nil => cases result; exact holds
  | cons hash rest ih =>
    rw [reverse_cons, append_assoc] at isGood ⊢
    rw [reconnectAll] at result
    split at result
    · cases result
    next block asking read =>
      obtain ⟨rfl, ⟨none, -⟩ | ⟨found, same, stored⟩⟩ := readBlock_cases world .rollback s read
      · cases none
      · cases same
        split at result
        · cases result
        next moved step =>
          have known := tracking.stored holds stored
          exact ih (tracking.connect back (tracking.logged holds (.after s _)) (tracking.drop isGood) known step) isGood
            result

omit tracking in
/-- A rollback is made from a state in which some of the new blocks are connected, and is to put back the
old ones that complete the chain to `restored`. -/
def RollsBack (env : Env) (world : World) (P : CChainState → List Uint256 → Prop) (good : List Uint256 → Prop)
    (restored : List Uint256) (outcome : Exit × CChainState) : Prop :=
  ∃ s connected disconnected base, P s (connected ++ base) ∧ good (connected ++ base) ∧
    disconnected.reverse ++ base = restored ∧ s.rollBack env world connected disconnected = outcome

/-- The rollback runs to its end with the invariant restored, or it fails. -/
lemma Tracking.rolledBack {restored : List Uint256} {outcome : Exit × CChainState} (back : safe .rollback)
    (goodBack : good restored)
    (rollsBack : RollsBack env world P good restored outcome) :
    outcome.1 = .rollbackFailed ∨ outcome.1 = .rolledBack ∧ P outcome.2 restored := by
  obtain ⟨s, connected, disconnected, base, holds, isGood, rfl, rfl⟩ := rollsBack
  unfold rollBack
  split
  · exact .inl rfl
  next cleared disconnects =>
    split
    · exact .inl rfl
    next restored reconnects =>
      have below := tracking.disconnectAgain back holds isGood disconnects
      exact .inr ⟨rfl, tracking.ended _ _ (tracking.reconnectAll back below goodBack reconnects)⟩

omit tracking in
/-- The chain that a loop ends on, and the one it restores when it stops early. -/
def Leaves (env : Env) (world : World) (P : CChainState → List Uint256 → Prop) (good : List Uint256 → Prop)
    (moved restored : List Uint256) : Except (Exit × CChainState) CChainState → Prop
  | .ok t => P t moved
  | .error outcome => RollsBack env world P good restored outcome

lemma Tracking.disconnectLoop (forward : safe .forward) (done rest : List Uint256) (holds : P s (rest ++ chain))
    (isGood : good (done.reverse ++ (rest ++ chain))) :
    Leaves env world P good chain (done.reverse ++ (rest ++ chain)) (s.disconnectLoop env world done rest) := by
  induction rest generalizing s done with
  | nil => exact holds
  | cons hash rest ih =>
    have here := tracking.drop isGood
    rw [disconnectLoop]
    split
    next failed step => exact ⟨failed, [], done, _, tracking.disconnect_failed forward holds here step, here, rfl, rfl⟩
    next moved step =>
      have below := tracking.disconnect forward holds here step
      have shift : done.reverse ++ (hash :: rest ++ chain) = (hash :: done).reverse ++ (rest ++ chain) := by simp
      rw [shift] at isGood ⊢
      exact ih (hash :: done) (tracking.logged below (logged_walCall ..)) isGood

lemma Tracking.connectLoop (forward : safe .forward) (pindexNew : Uint256) (block : CBlock)
    (disconnected done rest : List Uint256)
    (holds : P s (done ++ chain)) (isGood : good (rest.reverse ++ (done ++ chain))) (all : ∀ hash ∈ rest, exposed hash)
    (known : body pindexNew block) :
    Leaves env world P good (rest.reverse ++ (done ++ chain)) (disconnected.reverse ++ chain)
      (s.connectLoop env world pindexNew block disconnected done rest) := by
  induction rest generalizing s done with
  | nil => exact holds
  | cons hash rest ih =>
    have goodDone := tracking.drop isGood
    have allRest : ∀ other ∈ rest, exposed other := fun other member => all other (mem_cons_of_mem _ member)
    have shift : (hash :: rest).reverse ++ (done ++ chain) = rest.reverse ++ (hash :: done ++ chain) := by simp
    rw [shift] at isGood ⊢
    have here := tracking.drop isGood
    -- whichever way the body is obtained, it is the one known for the hash
    have obtained : ∀ {read asking}, (if hash = pindexNew then (some block, s) else s.readBlock world .forward hash) =
        (read, asking) →
        P asking (done ++ chain) ∧ ∀ found, read = some found → body hash found := by
      intro read asking result
      split at result
      next same =>
        cases result
        exact ⟨holds, fun found isFound => Option.some.inj isFound ▸ same ▸ known⟩
      · obtain ⟨rfl, ⟨rfl, -⟩ | ⟨found, rfl, stored⟩⟩ := readBlock_cases world .forward s result
        · exact ⟨tracking.logged holds (.after s _), fun _ nothing => by cases nothing⟩
        · exact ⟨tracking.logged holds (.after s _), fun _ same => Option.some.inj same ▸ tracking.stored holds stored⟩
    rw [connectLoop]
    split
    next unread result => exact ⟨unread, done, disconnected, chain, (obtained result).1, goodDone, rfl, rfl⟩
    next found read result =>
      obtain ⟨asked, isBody⟩ := obtained result
      split
      next stopped step =>
        have left := tracking.connect_failed forward asked here (all hash mem_cons_self) (isBody found rfl) step
        exact ⟨_, done, disconnected, chain, tracking.failRemaining left allRest, goodDone, rfl, rfl⟩
      next moved step =>
        have higher := tracking.connect forward asked here (isBody found rfl) step
        exact ih (hash :: done) (tracking.logged higher (logged_walCall ..)) isGood allRest

/-- The switch to the other chain is made, or it is rolled back. -/
lemma Tracking.switchChains {pindexNew : Uint256} {block : CBlock} {off on : List Uint256} {exit : Exit}
    (forward : safe .forward) (holds : P s (off ++ chain)) (goodOld : good (off ++ chain))
    (goodNew : good (on ++ chain))
    (all : ∀ hash ∈ on, exposed hash) (known : body pindexNew block)
    (result : s.switchChains env world pindexNew block off on.reverse = (exit, t)) :
    RollsBack env world P good (off ++ chain) (exit, t) ∨
      exit = .reorganized ∧ ∃ reached, P reached (on ++ chain) ∧ Tipped pindexNew reached t := by
  unfold CChainState.switchChains at result
  dsimp only at result
  have disconnecting := tracking.disconnectLoop forward [] off
    (tracking.logged holds (logged_walCall world .forward s CReorgWAL.enterDisconnectPhase)) goodOld
  split at result
  next failed stopped =>
    subst result
    rw [stopped] at disconnecting
    exact .inl disconnecting
  next between done =>
    rw [done] at disconnecting
    have connecting := tracking.connectLoop forward pindexNew block off.reverse [] on.reverse
      (tracking.logged disconnecting (logged_walCall world .forward between CReorgWAL.enterConnectPhase))
      (by simpa using goodNew) (by simpa using all) known
    rw [reverse_reverse, reverse_reverse] at connecting
    split at result
    next failed stopped =>
      subst result
      rw [stopped] at connecting
      exact .inl connecting
    next reached finished =>
      rw [finished] at connecting
      have tipped := tipped_writeBestBlock world pindexNew reached
      cases result
      exact .inr ⟨rfl, reached, connecting, (tipped.walEnd ..).notify pindexNew⟩

end

/-! Properties that no move can break. A property of the state that connecting, disconnecting and flagging
a block keep, whether they succeed or not, survives `ActivateBestChain` on the default path, whatever way
it takes; only the tip is set on top of it. -/

structure Preserved (env : Env) (world : World) (Q : CChainState → Prop) (body : Uint256 → CBlock → Prop) : Prop where
  logged : ∀ {s t}, Q s → Logged s t → Q t
  ended : ∀ {s} stage finish, Q s → Q (s.walEnd world stage finish)
  flagged : ∀ {s}, Q s → Q s.flagChainRebuild
  stored : ∀ {s hash block}, Q s → s.blocks.lookup hash = some block → body hash block
  connect : ∀ {stage s t hash block skip ok}, Q s → body hash block →
    s.connectTip env world stage hash block skip = (ok, t) → Q t
  disconnect : ∀ {stage s t hash ok}, Q s → s.disconnectTip env world stage hash = (ok, t) → Q t
  failChild : ∀ {s hash}, Q s → Q (s.modifyIndex hash failChild)

section

variable {env : Env} {world : World} {Q : CChainState → Prop} {body : Uint256 → CBlock → Prop}
  (preserved : Preserved env world Q body) {s t : CChainState} {pindexNew : Uint256} {block : CBlock}

include preserved

/-- A reorganisation tracks the property along with any chain. -/
lemma Preserved.tracking : Tracking env world (fun _ => True) (fun s _ => Q s) (fun _ => True)
    (fun _ => True) body where
  shorten _ := trivial
  logged := preserved.logged
  ended := preserved.ended
  stored := preserved.stored
  connect _ holds _ := preserved.connect holds
  connect_failed _ holds _ _ := preserved.connect holds
  disconnect _ holds _ := preserved.disconnect holds
  disconnect_failed _ holds _ := preserved.disconnect holds
  failChild holds _ := preserved.failChild holds

lemma Preserved.disconnectAgain (items : List Uint256) (holds : Q s) : Q (s.disconnectAgain env world items).2 := by
  induction items generalizing s with
  | nil => exact holds
  | cons hash rest ih =>
    rw [disconnectAgain]
    split
    next moved step => exact preserved.disconnect holds step
    next moved step => exact ih (preserved.disconnect holds step)

lemma Preserved.reconnectAll (items : List Uint256) (holds : Q s) : Q (s.reconnectAll env world items).2 := by
  induction items generalizing s with
  | nil => exact holds
  | cons hash rest ih =>
    rw [reconnectAll]
    split
    next asking read =>
      obtain ⟨rfl, -⟩ := readBlock_cases world .rollback s read
      exact preserved.logged holds (.after s _)
    next found asking read =>
      obtain ⟨rfl, ⟨none, -⟩ | ⟨_, same, stored⟩⟩ := readBlock_cases world .rollback s read
      · cases none
      · cases same
        have asked := preserved.logged holds (.after s (s.asked + 1))
        split
        next moved step => exact preserved.connect asked (preserved.stored holds stored) step
        next moved step => exact ih (preserved.connect asked (preserved.stored holds stored) step)

lemma Preserved.rollBack (connected disconnected : List Uint256) (holds : Q s) :
    Q (s.rollBack env world connected disconnected).2 := by
  have cleared := preserved.disconnectAgain connected holds
  unfold CChainState.rollBack
  split
  next moved step =>
    rw [step] at cleared
    exact preserved.ended _ _ cleared
  next moved step =>
    rw [step] at cleared
    have restored := preserved.reconnectAll disconnected cleared
    split
    next back again =>
      rw [again] at restored
      exact preserved.ended _ _ restored
    next back again =>
      rw [again] at restored
      exact preserved.ended _ _ restored

/-- The property holds in the end, or the tip was set on top of it. -/
lemma Preserved.switchChains (known : body pindexNew block) {off on : List Uint256} {exit : Exit} (holds : Q s)
    (result : s.switchChains env world pindexNew block off on = (exit, t)) :
    Q t ∨ exit = .reorganized ∧ ∃ reached, Q reached ∧ Tipped pindexNew reached t := by
  rw [← List.reverse_reverse on] at result
  have moved : RollsBack env world (fun s _ => Q s) (fun _ => True) (off ++ []) (exit, t) ∨ _ :=
    preserved.tracking.switchChains trivial holds trivial trivial (fun _ _ => trivial) known result
  refine moved.imp_left ?_
  rintro ⟨turned, connected, disconnected, -, kept, -, -, outcome⟩
  have back := preserved.rollBack connected disconnected kept
  rwa [outcome] at back

lemma Preserved.activation (known : body pindexNew block) {exit : Exit} (holds : Q s)
    (activation : Activation env world s pindexNew block exit t) :
    Q t ∨ ∃ reached, Q reached ∧ Tipped pindexNew reached t := by
  cases activation with
  | idle quiet logged => exact .inl (preserved.logged holds logged)
  | refused entry found fits step => exact .inl (preserved.connect holds known step)
  | extended entry found fits step tipped => exact .inr ⟨_, preserved.connect holds known step, tipped⟩
  | stuck tip siblings logged step => exact .inl (preserved.disconnect (preserved.logged holds logged) step)
  | bereft tip siblings logged off step =>
    exact .inl (preserved.flagged (preserved.connect
      (preserved.disconnect (preserved.logged holds logged) off) known step))
  | replaced tip siblings logged off step tipped =>
    exact .inr ⟨_, preserved.connect (preserved.disconnect (preserved.logged holds logged) off) known step, tipped⟩
  | switched tip atTip turns plan logged outcome =>
    exact (preserved.switchChains known (preserved.logged holds logged) outcome).imp_right
        fun ⟨_, reached, kept, tipped⟩ =>
      ⟨reached, kept, tipped⟩

end

end Dilithion.CChainState
