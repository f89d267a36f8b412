import Dilithion.Chain.FailedReorg

/-! How `ActivateBestChain` drives the log. Every call, on either path, makes a list of attempts: a
reorganisation is begun, its phases are recorded, and the log is completed or aborted. An attempt whose
beginning is refused stops there, without an abort, and since `BeginReorg` marks the log active before it
writes, a log that could not be written once stays active. -/

namespace Dilithion

open CReorgWAL Option

inductive PhaseCall where
  | enterDisconnectPhase
  | updateDisconnectProgress (count : UInt32)
  | enterConnectPhase
  | updateConnectProgress (count : UInt32)
  deriving DecidableEq

structure WalAttempt where
  forkPoint : Uint256
  currentTip : Uint256
  targetTip : Uint256
  disconnectBlocks : List Uint256
  connectBlocks : List Uint256
  intent : WalWrite
  calls : List (PhaseCall × WalWrite)
  removed : Bool

namespace CReorgWAL

def phaseCall (wal : CReorgWAL) : PhaseCall → WalWrite → Bool × CReorgWAL
  | .enterDisconnectPhase, write => wal.enterDisconnectPhase write
  | .updateDisconnectProgress count, write => wal.updateDisconnectProgress count write
  | .enterConnectPhase, write => wal.enterConnectPhase write
  | .updateConnectProgress count, write => wal.updateConnectProgress count write

def phases (wal : CReorgWAL) (calls : List (PhaseCall × WalWrite)) : CReorgWAL :=
  calls.foldl (fun wal call => (wal.phaseCall call.1 call.2).2) wal

def attempt (wal : CReorgWAL) (a : WalAttempt) : CReorgWAL :=
  match wal.beginReorg a.forkPoint a.currentTip a.targetTip a.disconnectBlocks a.connectBlocks a.intent with
  | (false, wal) => wal
  | (true, wal) => (wal.phases a.calls).completeReorg a.removed

variable {wal : CReorgWAL} {a : WalAttempt}

lemma attempt_active (active : wal.active = true) : wal.attempt a = wal := by
  rw [attempt, beginReorg, if_pos active]

/-- An idle log is idle again after an attempt, provided the intent was written. -/
lemma attempt_idle (idle : wal.active = false) : (wal.attempt a).active = false ↔ a.intent = .written := by
  unfold attempt beginReorg
  rw [if_neg (by simp [idle])]
  cases a.intent <;> simp [writeWAL, completeReorg]

lemma attempts_idle (attempts : List WalAttempt) (idle : wal.active = false) :
    (attempts.foldl attempt wal).active = false ↔ ∀ a ∈ attempts, a.intent = .written := by
  have stuck : ∀ (rest : List WalAttempt) {wal : CReorgWAL}, wal.active = true → rest.foldl attempt wal = wal := by
    intro rest
    induction rest with
    | nil => exact fun _ => rfl
    | cons a rest ih =>
      intro wal active
      rw [List.foldl_cons, attempt_active active, ih active]
  induction attempts generalizing wal with
  | nil => simpa using idle
  | cons a rest ih =>
    rw [List.foldl_cons, List.forall_mem_cons]
    by_cases written : a.intent = .written
    · exact (ih ((attempt_idle idle).mpr written)).trans (and_iff_right written).symm
    · have active : (wal.attempt a).active = true := Bool.eq_true_of_not_eq_false (mt (attempt_idle idle).mp written)
      rw [stuck rest active, active]
      exact iff_of_false (by simp) fun both => written both.1

end CReorgWAL

namespace CChainState

def Phased (s t : CChainState) : Prop := ∃ calls, t.reorgWAL = s.reorgWAL.map fun wal => wal.phases calls

def Closed (s t : CChainState) : Prop :=
  ∃ calls removed, t.reorgWAL = s.reorgWAL.map fun wal => (wal.phases calls).completeReorg removed

/-- The log went through these attempts, with what the world answered to the writes. -/
def Drives (world : World) (s : CChainState) (attempts : List WalAttempt) (t : CChainState) : Prop :=
  (t.reorgWAL = s.reorgWAL.map fun wal => attempts.foldl attempt wal) ∧
    ∀ a ∈ attempts, ∃ u : CChainState, a.intent = (u.askWalWrite world .forward).1

variable {env : Env} {world : World} {clock : Nat → Int} {s t u : CChainState}
  {hash pindexNew : Uint256} {block : CBlock}

lemma Phased.of_same (same : t.reorgWAL = s.reorgWAL) : Phased s t :=
  ⟨[], by rw [same]; exact map_id'.symm⟩

lemma Phased.trans (first : Phased s t) (second : Phased t u) : Phased s u := by
  obtain ⟨calls, before⟩ := first
  obtain ⟨more, after⟩ := second
  refine ⟨calls ++ more, ?_⟩
  rw [after, before]
  simp [phases, Function.comp_def]

lemma Phased.closed (phased : Phased s t) (closed : Closed t u) : Closed s u := by
  obtain ⟨calls, before⟩ := phased
  obtain ⟨more, removed, after⟩ := closed
  refine ⟨calls ++ more, removed, ?_⟩
  rw [after, before]
  simp [phases, Function.comp_def]

section

variable (world) (stage : Stage) (s : CChainState)

lemma walCall_reorgWAL (call : CReorgWAL → WalWrite → Bool × CReorgWAL) :
    (s.walCall world stage call).2.reorgWAL = s.reorgWAL.map fun wal => (call wal (s.askWalWrite world stage).1).2 := by
  unfold walCall
  cases log : s.reorgWAL with
  | none => exact log
  | some wal => rfl

lemma phased_walCall (call : PhaseCall) :
    Phased s (s.walCall world stage fun wal write => wal.phaseCall call write).2 :=
  ⟨[(call, (s.askWalWrite world stage).1)], walCall_reorgWAL world stage s _⟩

lemma closed_walEnd : Closed s (s.walEnd world stage completeReorg) := by
  refine ⟨[], world stage .removeWAL s.asked, ?_⟩
  unfold walEnd
  cases log : s.reorgWAL with
  | none => exact log
  | some wal => rfl

end

variable {stage : Stage} {ok : Bool}

lemma connectTip_reorgWAL {skip : Bool} (result : s.connectTip env world stage hash block skip = (ok, t)) :
    t.reorgWAL = s.reorgWAL := by
  cases connectTip_cases result with
  | unknown missing => rfl
  | refused pindex found asked failed => rfl
  | inapplicable pindex found asked set stopped => rfl
  | linked pindex found asked set applied =>
    unfold linkTip modifyParent
    cases pindex.pprev <;> rfl

lemma disconnectTip_reorgWAL (result : s.disconnectTip env world stage hash = (ok, t)) : t.reorgWAL = s.reorgWAL := by
  cases disconnectTip_cases result with
  | unknown missing => rfl
  | unread nothing asked => rfl
  | irreversible pindex found asked block kept set stopped =>
    obtain ⟨failures, rebuild, counted, -⟩ := recordUndoFailure_eq ((s.after asked).stored set) hash
    rw [counted]
    rfl
  | unlinked pindex found asked block kept set undone =>
    unfold unlinkTip modifyParent
    cases pindex.pprev <;> rfl

lemma readBlock_reorgWAL {read : Option CBlock} (result : s.readBlock world stage hash = (read, t)) :
    t.reorgWAL = s.reorgWAL := by
  obtain ⟨rfl, -⟩ := readBlock_cases world stage s result
  rfl

lemma readable_reorgWAL {hashes : List Uint256} (result : s.readable world hashes = (ok, t)) :
    t.reorgWAL = s.reorgWAL := by
  induction hashes generalizing s with
  | nil =>
    cases result
    rfl
  | cons hash rest ih =>
    rw [readable] at result
    split at result
    next after read =>
      cases result
      exact readBlock_reorgWAL read
    next block after read => exact (ih result).trans (readBlock_reorgWAL read)

/-- The state a loop goes on with has the log still open; where it stops, the log is closed. -/
def Settled {ε : Type} (s : CChainState) : Except (ε × CChainState) CChainState → Prop
  | .ok t => Phased s t
  | .error outcome => Closed s outcome.2

lemma Phased.settled {ε : Type} {result : Except (ε × CChainState) CChainState} (phased : Phased s t)
    (settled : Settled t result) :
    Settled s result := by
  cases result with
  | ok after => exact phased.trans settled
  | error outcome => exact phased.closed settled

section

variable (env : Env) (world : World)

lemma disconnectAgain_reorgWAL (items : List Uint256) (s : CChainState) :
    (s.disconnectAgain env world items).2.reorgWAL = s.reorgWAL := by
  induction items generalizing s with
  | nil => rfl
  | cons hash rest ih =>
    rw [disconnectAgain]
    split
    next after step => exact disconnectTip_reorgWAL step
    next after step => exact (ih after).trans (disconnectTip_reorgWAL step)

lemma reconnectAll_reorgWAL (items : List Uint256) (s : CChainState) :
    (s.reconnectAll env world items).2.reorgWAL = s.reorgWAL := by
  induction items generalizing s with
  | nil => rfl
  | cons hash rest ih =>
    rw [reconnectAll]
    split
    next asking read => exact readBlock_reorgWAL read
    next found asking read =>
      split
      next after step => exact (connectTip_reorgWAL step).trans (readBlock_reorgWAL read)
      next after step => exact (ih after).trans ((connectTip_reorgWAL step).trans (readBlock_reorgWAL read))

lemma closed_rollBack (connected disconnected : List Uint256) :
    Closed s (s.rollBack env world connected disconnected).2 := by
  have cleared := disconnectAgain_reorgWAL env world connected s
  unfold rollBack
  split
  next after step =>
    rw [step] at cleared
    exact (Phased.of_same cleared).closed (closed_walEnd world .rollback after)
  next after step =>
    rw [step] at cleared
    have restored := reconnectAll_reorgWAL env world disconnected after
    split <;> next back again =>
      rw [again] at restored
      exact (Phased.of_same (restored.trans cleared)).closed (closed_walEnd world .rollback back)

lemma settled_disconnectLoop (done rest : List Uint256) (s : CChainState) :
    Settled s (s.disconnectLoop env world done rest) := by
  induction rest generalizing s done with
  | nil => exact .of_same rfl
  | cons hash rest ih =>
    rw [disconnectLoop]
    split
    next after step => exact (Phased.of_same (disconnectTip_reorgWAL step)).closed (closed_rollBack env world [] done)
    next after step =>
      have recorded := phased_walCall world .forward after (.updateDisconnectProgress (UInt32.ofNat (done.length + 1)))
      exact ((Phased.of_same (disconnectTip_reorgWAL step)).trans recorded).settled (ih (hash :: done) _)

lemma settled_connectLoop (pindexNew : Uint256) (block : CBlock)
    (disconnected done rest : List Uint256) (s : CChainState) :
    Settled s (s.connectLoop env world pindexNew block disconnected done rest) := by
  induction rest generalizing s done with
  | nil => exact .of_same rfl
  | cons hash rest ih =>
    have obtained : ∀ {read asking}, (if hash = pindexNew then (some block, s) else s.readBlock world .forward hash) =
        (read, asking) →
        asking.reorgWAL = s.reorgWAL := by
      intro read asking result
      split at result
      · cases result
        rfl
      · exact readBlock_reorgWAL result
    rw [connectLoop]
    split
    next asking read => exact (Phased.of_same (obtained read)).closed (closed_rollBack env world done disconnected)
    next found asking read =>
      split
      next after step =>
        have same : (after.failRemaining rest).reorgWAL = s.reorgWAL := (connectTip_reorgWAL step).trans (obtained read)
        exact (Phased.of_same same).closed (closed_rollBack env world done disconnected)
      next after step =>
        have recorded := phased_walCall world .forward after (.updateConnectProgress (UInt32.ofNat (done.length + 1)))
        exact ((Phased.of_same ((connectTip_reorgWAL step).trans (obtained read))).trans recorded).settled
          (ih (hash :: done) _)

/-- A loop that stops has closed the log, and one that comes through leaves that to what follows. -/
lemma Settled.closed {ε : Type} {result : Except (ε × CChainState) CChainState} {out : ε × CChainState}
    (settled : Settled s result)
    (stops : ∀ failed, result = .error failed → out = failed) (goes : ∀ t, result = .ok t → Closed t out.2) :
    Closed s out.2 := by
  cases result with
  | error failed =>
    rw [stops failed rfl]
    exact settled
  | ok t => exact Phased.closed settled (goes t rfl)

/-- From the beginning of a reorganisation on, every way out closes the log. -/
lemma closed_switchChains (pindexNew : Uint256) (block : CBlock) (off on : List Uint256) :
    Closed s (s.switchChains env world pindexNew block off on).2 := by
  have entered : Phased s (s.walCall world .forward enterDisconnectPhase).2 :=
    phased_walCall world .forward s .enterDisconnectPhase
  unfold switchChains
  dsimp only
  refine (entered.settled (settled_disconnectLoop env world [] off _)).closed
    (fun _ stopped => by rw [stopped]) fun between done => ?_
  have entered : Phased between (between.walCall world .forward enterConnectPhase).2 :=
    phased_walCall world .forward between .enterConnectPhase
  rw [done]
  dsimp only
  refine (entered.settled (settled_connectLoop env world pindexNew block off.reverse [] on _)).closed
    (fun _ stopped => by rw [stopped]) fun reached done => ?_
  have tipped : ((reached.setTip pindexNew).writeBestBlock world .forward pindexNew).reorgWAL = reached.reorgWAL := by
    unfold writeBestBlock
    split <;> rfl
  rw [done]
  exact (Phased.of_same tipped).closed (closed_walEnd world .forward _)

end

lemma Drives.none (same : t.reorgWAL = s.reorgWAL) : Drives world s [] t :=
  ⟨by rw [same]; exact map_id'.symm, by simp⟩

variable {attempts : List WalAttempt}

lemma Drives.of_same (same : t.reorgWAL = s.reorgWAL) (drives : Drives world t attempts u) :
    Drives world s attempts u := ⟨same ▸ drives.1, drives.2⟩

/-- A reorganisation that is begun and, if that succeeds, closed. -/
lemma Drives.begun (forkPoint currentTip targetTip : Uint256) (off on : List Uint256)
    (begun : s.walCall world .forward (fun wal write => wal.beginReorg forkPoint currentTip targetTip off on write) =
      (ok, t))
    (finished : if ok then Closed t u else u.reorgWAL = t.reorgWAL) : ∃ attempts, Drives world s attempts u := by
  cases log : s.reorgWAL with
  | none =>
    have same : t.reorgWAL = s.reorgWAL := by
      have called := walCall_reorgWAL world .forward s fun wal write =>
        wal.beginReorg forkPoint currentTip targetTip off on write
      rw [begun, log] at called
      exact called.trans log.symm
    refine ⟨[], .none ?_⟩
    cases ok with
    | false => exact finished.trans same
    | true =>
      obtain ⟨calls, removed, closed⟩ := finished
      rw [closed, same, log]
      rfl
  | some wal =>
    have opened : wal.beginReorg forkPoint currentTip targetTip off on (s.askWalWrite world .forward).1 =
        (ok, t.reorgWAL.getD wal) ∧
        t.reorgWAL.isSome = true := by
      unfold walCall at begun
      rw [log] at begun
      cases begun
      exact ⟨rfl, rfl⟩
    obtain ⟨now, isNow⟩ := isSome_iff_exists.mp opened.2
    rw [isNow] at opened
    cases ok with
    | false =>
      refine ⟨[⟨forkPoint, currentTip, targetTip, off, on, (s.askWalWrite world .forward).1, [], true⟩], ?_, ?_⟩
      · rw [show u.reorgWAL = t.reorgWAL from finished, isNow, log]
        simp [attempt, opened.1]
      · simpa using ⟨s, rfl⟩
    | true =>
      obtain ⟨calls, removed, closed⟩ := finished
      refine ⟨[⟨forkPoint, currentTip, targetTip, off, on, (s.askWalWrite world .forward).1, calls, removed⟩], ?_, ?_⟩
      · rw [closed, isNow, log]
        simp [attempt, opened.1]
      · simpa using ⟨s, rfl⟩

lemma Drives.append {first second : List WalAttempt} (before : Drives world s first t)
    (after : Drives world t second u) :
    Drives world s (first ++ second) u := by
  refine ⟨?_, fun a inside => ?_⟩
  · rw [after.1, before.1]
    simp [Function.comp_def]
  · rcases List.mem_append.mp inside with earlier | later
    · exact before.2 a earlier
    · exact after.2 a later

def Attempted (world : World) (s t : CChainState) : Prop := ∃ attempts, Drives world s attempts t

lemma Attempted.none (same : t.reorgWAL = s.reorgWAL) : Attempted world s t := ⟨[], .none same⟩

lemma Attempted.of_same (same : t.reorgWAL = s.reorgWAL) : Attempted world t u → Attempted world s u
  | ⟨attempts, drives⟩ => ⟨attempts, drives.of_same same⟩

section

variable (env : Env) (world : World)

lemma drives_reorganize (tip pindexNew : Uint256) (pindexTip : CBlockIndex) (block : CBlock) :
    Attempted world s (s.reorganize env world tip pindexNew pindexTip block).2 := by
  unfold reorganize
  split
  · exact .none rfl
  next fork forked =>
  split
  next pindexFork off connectReversed _ _ _ =>
    dsimp only
    split
    · exact .none rfl
    split
    · exact .none rfl
    split
    · exact .none rfl
    · generalize result : s.readable world
        (off ++ connectReversed.reverse.filter fun hash => decide (hash ≠ pindexNew)) = checked
      have read : checked.2.reorgWAL = s.reorgWAL := readable_reorgWAL result
      split
      · exact .none read
      · cases begun : checked.2.walCall world .forward fun wal write =>
            wal.beginReorg fork tip pindexNew off connectReversed.reverse write with
        | mk ok opened =>
          refine .of_same read (Drives.begun fork tip pindexNew off connectReversed.reverse begun ?_)
          cases ok with
          | false => rfl
          | true => exact closed_switchChains env world pindexNew block off _
  · exact .none rfl

lemma preflight_reorgWAL : (s.preflight env world).2.reorgWAL = s.reorgWAL := by
  unfold preflight
  split <;> rfl

lemma drives_compete (now : Int) (tip pindexNew : Uint256) (entry pindexTip : CBlockIndex) (block : CBlock) :
    Attempted world s (s.compete env world now tip pindexNew entry pindexTip block).2 := by
  have asked : (s.vdfTiebreak env world now entry pindexTip).2.reorgWAL = s.reorgWAL := by
    unfold vdfTiebreak
    split
    · exact preflight_reorgWAL env world
    · rfl
  unfold compete
  split
  · exact drives_reorganize env world tip pindexNew pindexTip block
  · dsimp only
    split
    · exact .of_same asked (drives_reorganize env world tip pindexNew pindexTip block)
    · exact .none asked

lemma setTip_reorgWAL (pindexNew : Uint256) :
    ((s.setTip pindexNew).writeBestBlock world .forward pindexNew).reorgWAL = s.reorgWAL := by
  unfold writeBestBlock
  split <;> rfl

lemma connectFirst_reorgWAL (pindexNew : Uint256) (block : CBlock) :
    (s.connectFirst env world pindexNew block).2.reorgWAL = s.reorgWAL := by
  unfold connectFirst
  split
  next after step => exact connectTip_reorgWAL step
  next after step => exact (setTip_reorgWAL world pindexNew).trans (connectTip_reorgWAL step)

lemma extendTip_reorgWAL (now : Int) (pindexNew : Uint256) (entry pindexTip : CBlockIndex) (block : CBlock) :
    (s.extendTip env world now pindexNew entry pindexTip block).2.reorgWAL = s.reorgWAL := by
  unfold extendTip
  split
  · rfl
  split
  next after step => exact connectTip_reorgWAL step
  next after step =>
    refine Eq.trans ?_ (connectTip_reorgWAL step)
    unfold writeBestBlock anchorVdfGrace
    split <;> split <;> rfl

lemma replaceTip_reorgWAL (tip pindexNew : Uint256) (block : CBlock) :
    (s.replaceTip env world tip pindexNew block).2.reorgWAL = s.reorgWAL := by
  unfold replaceTip
  split
  next below off => exact disconnectTip_reorgWAL off
  next below off =>
    split
    next after step => exact (connectTip_reorgWAL step).trans (disconnectTip_reorgWAL off)
    next after step =>
      exact (setTip_reorgWAL world pindexNew).trans ((connectTip_reorgWAL step).trans (disconnectTip_reorgWAL off))

lemma drives_activateBestChain (now : Int) (pindexNew : Uint256) (block : CBlock) :
    Attempted world s (s.activateBestChain env world now pindexNew block).2 := by
  unfold activateBestChain
  split
  · exact .none rfl
  next entry found =>
    split
    · exact .none rfl
    split
    · exact .none (connectFirst_reorgWAL env world pindexNew block)
    next tip atTip =>
      split
      · exact .none rfl
      next pindexTip foundTip =>
        split
        · exact .none (extendTip_reorgWAL env world now pindexNew entry pindexTip block)
        · have asked : (s.shouldReplaceVDFTip env world now entry pindexTip).2.reorgWAL = s.reorgWAL := by
            unfold shouldReplaceVDFTip
            split
            · exact preflight_reorgWAL env world
            · rfl
          dsimp only
          split
          · exact .none ((replaceTip_reorgWAL env world tip pindexNew block).trans asked)
          · exact .of_same asked (drives_compete env world now tip pindexNew entry pindexTip block)

lemma persistTip_reorgWAL {ok : Bool} (result : s.persistTip world = (ok, t)) : t.reorgWAL = s.reorgWAL := by
  unfold persistTip writeBestBlock at result
  split at result
  · cases result
    rfl
  · cases result
    split <;> rfl

lemma closed_stopStep (disconnected : Bool) : Closed s (s.stopStep world disconnected) := by
  unfold stopStep
  split
  · exact closed_walEnd world .forward s
  · exact closed_walEnd world .forward s

lemma settled_stepDisconnect (count : Nat) (off : List Uint256) (s : CChainState) :
    Settled s (s.stepDisconnect env world count off) := by
  induction off generalizing s count with
  | nil => exact .of_same rfl
  | cons hash rest ih =>
    rw [stepDisconnect]
    split
    next after step => exact (Phased.of_same (disconnectTip_reorgWAL step)).closed (closed_walEnd world .forward after)
    next after step =>
      have same := disconnectTip_reorgWAL step
      have moved : (after.rewindTip hash).reorgWAL = s.reorgWAL := same
      split
      next kept written =>
        exact (Phased.of_same ((persistTip_reorgWAL world written).trans moved)).closed
          (closed_walEnd world .forward kept)
      next kept written =>
        have recorded := phased_walCall world .forward kept (.updateDisconnectProgress (UInt32.ofNat (count + 1)))
        exact ((Phased.of_same ((persistTip_reorgWAL world written).trans moved)).trans recorded).settled
          (ih (count + 1) _)

lemma blockFor_reorgWAL {read : Option CBlock}
    (result : s.blockFor env world block hash = (read, t)) : t.reorgWAL = s.reorgWAL := by
  unfold blockFor at result
  split at result
  · cases result
    rfl
  · exact readBlock_reorgWAL result

variable (clock : Nat → Int) (block : CBlock)

lemma settled_stepConnect (disconnected : Bool) (count : Nat) (on : List Uint256) (s : CChainState) :
    Settled s (s.stepConnect env world clock block disconnected count on) := by
  induction on generalizing s count with
  | nil => exact .of_same rfl
  | cons hash rest ih =>
    rw [stepConnect]
    split
    next asking read =>
      exact (Phased.of_same (blockFor_reorgWAL env world read)).closed (closed_stopStep world disconnected)
    next found asking read =>
      have asked := blockFor_reorgWAL env world read
      split
      next after step =>
        have same : (after.withTree (after.toBlockTree.markBlockAsFailed hash)).reorgWAL = s.reorgWAL :=
          (connectTip_reorgWAL step).trans asked
        exact (Phased.of_same same).closed (closed_stopStep world disconnected)
      next after step =>
        have moved : ((after.setTip hash).maybeAnchorVdfGrace env clock hash).reorgWAL = s.reorgWAL := by
          refine Eq.trans ?_ ((connectTip_reorgWAL step).trans asked)
          unfold maybeAnchorVdfGrace
          split
          · rfl
          · split <;> rfl
        split
        next kept written =>
          exact (Phased.of_same ((persistTip_reorgWAL world written).trans moved)).closed
            (closed_walEnd world .forward kept)
        next kept written =>
          have recorded := phased_walCall world .forward kept (.updateConnectProgress (UInt32.ofNat (count + 1)))
          have pruned : ∀ v : CChainState, Phased v (v.withTree v.toBlockTree.pruneBlockIndexCandidates) :=
            fun _ => .of_same rfl
          exact (((Phased.of_same ((persistTip_reorgWAL world written).trans moved)).trans recorded).trans
            (pruned _)).settled
            (ih (count + 1) _)

lemma closed_moveTip (off on : List Uint256) : Closed s (s.moveTip env world clock block off on).2 := by
  have entered : Phased s (s.walCall world .forward enterDisconnectPhase).2 :=
    phased_walCall world .forward s .enterDisconnectPhase
  unfold moveTip
  dsimp only
  refine (entered.settled (settled_stepDisconnect env world 0 off _)).closed
    (fun _ stopped => by rw [stopped]) fun between done => ?_
  have entered : Phased between (between.walCall world .forward enterConnectPhase).2 :=
    phased_walCall world .forward between .enterConnectPhase
  rw [done]
  dsimp only
  refine (entered.settled (settled_stepConnect env world clock block (!off.isEmpty) 0 on _)).closed
    (fun _ stopped => by rw [stopped]) fun reached done => ?_
  have kept := persistTip_reorgWAL world (Prod.eta (reached.persistTip world)).symm
  rw [done]
  exact (Phased.of_same kept).closed (closed_walEnd world .forward _)

lemma drives_activateBestChainStep (pindexMostWork : Uint256) :
    Attempted world s (s.activateBestChainStep env world clock pindexMostWork block).2 := by
  unfold activateBestChainStep
  split
  · exact .none rfl
  dsimp only
  split
  · exact .none rfl
  split
  next after result => exact .none (readable_reorgWAL result)
  next after result =>
    have same := readable_reorgWAL result
    split
    next opened begun =>
      exact .of_same same (Drives.begun _ _ _ _ _ begun (show opened.reorgWAL = opened.reorgWAL from rfl))
    next opened begun =>
      exact .of_same same (Drives.begun _ _ _ _ _ begun (closed_moveTip env world clock block _ _))

lemma drives_activationTurn : Attempted world s (s.activationTurn env world clock block).state := by
  unfold activationTurn
  split
  · exact .none rfl
  next pindexMostWork tree searched =>
    dsimp only
    split
    · exact .none rfl
    split
    · exact .none rfl
    split
    · exact .none rfl
    split
    · exact .none rfl
    · have whole : Attempted world s _ :=
        .of_same rfl (drives_activateBestChainStep (s := s.withTree tree) env world clock block pindexMostWork)
      split
      · exact whole
      · split <;> exact whole

lemma drives_activationLoop {fuel : Nat} {returns : Bool}
    (result : activationLoop env world clock block fuel s = some (returns, t)) : Attempted world s t := by
  induction fuel generalizing s with
  | zero => cases result
  | succ fuel ih =>
    obtain ⟨attempts, drives⟩ := drives_activationTurn (s := s) env world clock block
    rw [activationLoop] at result
    split at result
    next ended last turn =>
      rw [turn] at drives
      cases result
      exact ⟨attempts, drives⟩
    next again turn =>
      rw [turn] at drives
      obtain ⟨later, rest⟩ := ih result
      exact ⟨attempts ++ later, drives.append rest⟩

lemma drives_activateBestChainNew {fuel : Nat} {activated : Activated}
    (result : activateBestChainNew env world clock fuel s pindexNew block = some activated) :
    Attempted world s activated.state := by
  unfold activateBestChainNew at result
  split at result
  · cases result
    exact .none rfl
  split at result
  · cases result
    exact .none rfl
  · obtain ⟨⟨returns, last⟩, looped, rfl⟩ := map_eq_some_iff.mp result
    obtain ⟨attempts, drives⟩ := drives_activationLoop env world clock block looped
    have whole : Drives world s attempts last := drives.of_same rfl
    refine ⟨attempts, ?_⟩
    split
    · refine ⟨Eq.trans ?_ whole.1, whole.2⟩
      unfold announceTip
      split <;> rfl
    · exact whole

end

inductive Activates (env : Env) : CChainState → CChainState → Prop where
  | default {s : CChainState} (world : World) (now : Int) (pindexNew : Uint256) (block : CBlock) :
      Activates env s (s.activateBestChain env world now pindexNew block).2
  | selector {s : CChainState} (world : World) (clock : Nat → Int) (fuel : Nat) (pindexNew : Uint256) (block : CBlock)
      (activated : Activated) (result : activateBestChainNew env world clock fuel s pindexNew block = some activated) :
      Activates env s activated.state

inductive Driven (env : Env) : CChainState → List WalAttempt → CChainState → Prop where
  | start (s : CChainState) : Driven env s [] s
  | default {s t : CChainState} {attempts more : List WalAttempt} (before : Driven env s attempts t)
      (world : World) (now : Int)
      (pindexNew : Uint256) (block : CBlock)
        (drives : Drives world t more (t.activateBestChain env world now pindexNew block).2) :
      Driven env s (attempts ++ more) (t.activateBestChain env world now pindexNew block).2
  | selector {s t : CChainState} {attempts more : List WalAttempt} (before : Driven env s attempts t) (world : World)
      (clock : Nat → Int) (fuel : Nat) (pindexNew : Uint256) (block : CBlock) (activated : Activated)
      (result : activateBestChainNew env world clock fuel t pindexNew block = some activated)
      (drives : Drives world t more activated.state) : Driven env s (attempts ++ more) activated.state

lemma driven_of_run (run : Relation.ReflTransGen (Activates env) s t) : ∃ attempts, Driven env s attempts t := by
  induction run with
  | refl => exact ⟨[], .start s⟩
  | tail _ call ih =>
    obtain ⟨attempts, driven⟩ := ih
    cases call with
    | default world now pindexNew block =>
      obtain ⟨more, drives⟩ := drives_activateBestChain env world now pindexNew block
      exact ⟨_, driven.default world now pindexNew block drives⟩
    | selector world clock fuel pindexNew block activated result =>
      obtain ⟨more, drives⟩ := drives_activateBestChainNew env world clock block result
      exact ⟨_, driven.selector world clock fuel pindexNew block activated result drives⟩

lemma Driven.reorgWAL (driven : Driven env s attempts t) :
    t.reorgWAL = s.reorgWAL.map fun wal => attempts.foldl attempt wal := by
  have joined : ∀ {middle : CChainState} {first second : List WalAttempt} {last : CChainState},
      (middle.reorgWAL = s.reorgWAL.map fun wal => first.foldl attempt wal) →
      (last.reorgWAL = middle.reorgWAL.map fun wal => second.foldl attempt wal) →
      last.reorgWAL = s.reorgWAL.map fun wal => (first ++ second).foldl attempt wal := by
    intro middle first second last before after
    rw [after, before]
    simp [Function.comp_def]
  induction driven with
  | start => exact map_id'.symm
  | default before world now pindexNew block drives ih => exact joined ih drives.1
  | selector before world clock fuel pindexNew block activated result drives ih => exact joined ih drives.1

/-- After any calls of `ActivateBestChain` a reorganisation can begin with a successful write exactly if
the beginning of every earlier one was written. -/
theorem beginReorg_returns_iff (env : Env) (s t : CChainState) (wal : CReorgWAL) (log : s.reorgWAL = some wal)
    (idle : wal.active = false) (run : Relation.ReflTransGen (Activates env) s t) :
    (∃ attempts, Driven env s attempts t) ∧ ∀ attempts, Driven env s attempts t → ∃ now, t.reorgWAL = some now ∧
      ∀ forkPoint currentTip targetTip disconnectBlocks connectBlocks,
        (now.beginReorg forkPoint currentTip targetTip disconnectBlocks connectBlocks .written).1 = true ↔
          ∀ a ∈ attempts, a.intent = .written := by
  refine ⟨driven_of_run run, fun attempts driven => ⟨attempts.foldl attempt wal, ?_, ?_⟩⟩
  · rw [driven.reorgWAL, log, map_some]
  · intro forkPoint currentTip targetTip disconnectBlocks connectBlocks
    rw [← attempts_idle attempts idle]
    unfold beginReorg
    cases (attempts.foldl attempt wal).active <;> simp [writeWAL]

def willing : World := fun _ _ _ => true

theorem beginReorg_returns_after_reorg : ∃ now,
    (forkState.activateBestChain forkEnv willing 0 forkRival (forkBlock (some forkRivalParent) 3)).2.reorgWAL =
      some now ∧
      (now.beginReorg forkGenesis forkRival forkTip [forkRival, forkRivalParent] [forkTip] .written).1 = true := by
  obtain ⟨attempts, drives⟩ := drives_activateBestChain (s := forkState) forkEnv willing 0 forkRival
    (forkBlock (some forkRivalParent) 3)
  have driven := (Driven.start forkState : Driven forkEnv forkState [] forkState).default willing 0 forkRival
    (forkBlock (some forkRivalParent) 3) drives
  obtain ⟨now, log, returns⟩ := (beginReorg_returns_iff forkEnv forkState _ _ rfl rfl
    (.single (.default willing 0 forkRival (forkBlock (some forkRivalParent) 3)))).2 _ driven
  refine ⟨now, log, (returns forkGenesis forkRival forkTip [forkRival, forkRivalParent] [forkTip]).mpr fun a inside =>
    ?_⟩
  obtain ⟨u, answered⟩ := drives.2 a inside
  exact answered

def walRefused : World
  | _, .writeWAL, _ => false
  | _, _, _ => true

/-- One reorganisation whose log cannot be written stops all later ones. -/
theorem refused_log_wedges :
    (forkState.activateBestChain forkEnv walRefused 0 forkRival (forkBlock (some forkRivalParent) 3)).1 = .walFailed ∧
    ((forkState.activateBestChain forkEnv walRefused 0 forkRival
      (forkBlock (some forkRivalParent) 3)).2.activateBestChain forkEnv
      willing 0 forkRival (forkBlock (some forkRivalParent) 3)).1 = .walFailed ∧
    (forkState.activateBestChain forkEnv willing 0 forkRival (forkBlock (some forkRivalParent) 3)).1 =
      .reorganized := by
  decide

end CChainState

end Dilithion
