import Dilithion.Lib.SlidingWindow
import Dilithion.Vdf.CooldownWindow

/-! The tracker along a history of the chain. `ConnectTip` tells it of a block through the callbacks, and of a
block at an assume-valid height once more before its last checks; `DisconnectTip` takes one record back. As
long as no such block comes off again or fails, and nothing comes back into the window that has left it, the
tracker answers for the next height as one that has seen the active chain only. -/

namespace Dilithion

open Lib SlidingWindow List

structure CooldownEnv where
  hashes : HashFunctions
  cooldown : CooldownParams
  dfmpActivationHeight : Int
  dfmpAssumeValidHeight : Int

namespace CooldownEnv

variable (env : CooldownEnv)

variable (block : CBlock)

def winOf : Option (Address × Int) :=
  if block.toCBlockHeader.isVDFBlock then
    (extractCoinbaseMIKIdentity env.hashes block).map fun mikId => (mikId, (block.nTime.toNat : Int))
  else none

variable (height : Int)

/-- The identity that the first transaction registers, as the callback for mining identities reads it. -/
def registrationOf : Option Address :=
  if env.dfmpActivationHeight ≤ height ∧ ¬ block.vtx.isEmpty then
    match CBlockValidator.deserializeBlockTransactions block with
    | .error _ => none
    | .ok [] => none
    | .ok (coinbaseTx :: _) => do
      let txin ← coinbaseTx.vin.head?
      let mikData ← DFMP.parseMIKFromScriptSig env.hashes txin.scriptSig
      if mikData.isRegistration && !mikData.identity.isNull then some mikData.identity else none
  else none

def assumeValid : Bool := decide (0 < env.dfmpAssumeValidHeight) && decide (height ≤ env.dfmpAssumeValidHeight)

variable (tracker : CCooldownTracker)

def recordBlock (block : CBlock) (height : Int) : CCooldownTracker :=
  match env.winOf block with
  | none => tracker
  | some (mikId, timestamp) => tracker.onBlockConnected height mikId timestamp

def connectCallbacks (block : CBlock) (height : Int) : CCooldownTracker :=
  let registered := match env.registrationOf block height with
    | none => tracker
    | some mikId => tracker.onRegistrationConnected height mikId
  env.recordBlock registered block height

def disconnectCallbacks (block : CBlock) (height : Int) : CCooldownTracker :=
  if block.toCBlockHeader.isVDFBlock then tracker.onBlockDisconnected height else tracker

def replay : List CBlock → CCooldownTracker
  | [] => { params := env.cooldown }
  | block :: below => connectCallbacks env (replay below) block below.length

end CooldownEnv

inductive CooldownQuery where
  | isInCooldown (addr : Address) (height currentTimestamp : Int)
  | effectiveCooldown (height : Int)

def CCooldownTracker.ask (tracker : CCooldownTracker) : CooldownQuery → CCooldownTracker
  | .isInCooldown addr height currentTimestamp => (tracker.isInCooldown addr height currentTimestamp).2
  | .effectiveCooldown height => (tracker.getEffectiveCooldown height).2

structure ConnectAttempt where
  skipValidation : Bool
  /-- The proof of work for the miner's identity is accepted. -/
  identified : Bool
  /-- What the later checks ask the tracker. -/
  queries : List CooldownQuery
  /-- The later checks pass and the block is applied. -/
  connected : Bool

inductive TrackerOp where
  | connectTip (block : CBlock) (attempt : ConnectAttempt)
  | disconnectTip
  | ask (query : CooldownQuery)

/-- A win as it stands in the lifetime records: with the number of times it was entered. -/
structure WinEntry where
  winner : Address
  timestamp : Int
  copies : Nat

/-- The active chain from its tip down with the tracker. The seats say what each block has entered in the
tracker; nothing reads them. -/
structure TrackedChain where
  blocks : List CBlock
  tracker : CCooldownTracker
  seats : List (Seat WinEntry)

namespace TrackedChain

variable (env : CooldownEnv)

def empty : TrackedChain := ⟨[], { params := env.cooldown }, []⟩

/-- Whether `ConnectTip` records the block before its last checks. -/
def recordsEarly (block : CBlock) (height : Int) (attempt : ConnectAttempt) : Bool :=
  !attempt.skipValidation && env.assumeValid height && (env.winOf block).isSome

def connectTip (chain : TrackedChain) (block : CBlock) (attempt : ConnectAttempt) : Bool × TrackedChain :=
  let height : Int := chain.blocks.length
  if !attempt.skipValidation && !attempt.identified then (false, chain)
  else
    let early := if recordsEarly env block height attempt then env.recordBlock chain.tracker block height
      else chain.tracker
    let asked := attempt.queries.foldl CCooldownTracker.ask early
    if attempt.connected then
      let copies := if recordsEarly env block height attempt then 2 else 1
      (true, ⟨block :: chain.blocks, env.connectCallbacks asked block height,
        push chain.seats ((env.winOf block).map fun win => ⟨win.1, win.2, copies⟩)⟩)
    else (false, { chain with tracker := asked })

def disconnectTip (chain : TrackedChain) : TrackedChain :=
  match chain.blocks with
  | [] => chain
  | block :: below => ⟨below, CooldownEnv.disconnectCallbacks chain.tracker block below.length, chain.seats.tail⟩

def step (chain : TrackedChain) : TrackerOp → TrackedChain
  | .connectTip block attempt => (chain.connectTip env block attempt).2
  | .disconnectTip => chain.disconnectTip
  | .ask query => { chain with tracker := chain.tracker.ask query }

end TrackedChain

def PushedOut (width : Int) (seats : List (Seat WinEntry)) (seat : Seat WinEntry) : Prop :=
  ∃ upper ∈ seats, upper.entry ≠ none ∧ seat.height + width ≤ upper.height

/-- What has left the window was pushed out by blocks that are still in the chain. -/
def EvictedByChain (width : Int) (seats : List (Seat WinEntry)) : Prop :=
  ∀ seat ∈ seats, seat.entry ≠ none → seat.evicted width = true → PushedOut width seats seat

/-- A block that is recorded early is connected, and has a time. A block that comes off was recorded once, is
recorded if it registers a miner, and has pushed nothing out of the window that now comes back. -/
def TrackedChain.Clear (env : CooldownEnv) (chain : TrackedChain) : TrackerOp → Prop
  | .connectTip block attempt =>
    (attempt.skipValidation = true ∨ attempt.identified = true →
      TrackedChain.recordsEarly env block chain.blocks.length attempt = true → attempt.connected = true) ∧
    ∀ win, env.winOf block = some win → 0 < win.2
  | .disconnectTip =>
    (∀ block ∈ chain.blocks.head?, (env.registrationOf block (chain.blocks.length - 1)).isSome →
      (env.winOf block).isSome) ∧
    (∀ seat ∈ chain.seats.head?, ∀ win ∈ seat.entry, win.copies = 1) ∧
    EvictedByChain env.cooldown.activeWindow chain.seats.tail
  | .ask _ => True

inductive TrackedChain.Run (env : CooldownEnv) : TrackedChain → Prop where
  | start : Run env (TrackedChain.empty env)
  | next {chain : TrackedChain} (earlier : Run env chain) (op : TrackerOp) (clear : chain.Clear env op) :
      Run env (chain.step env op)

/-- The heights of a miner's blocks, lowest first, each as often as it was recorded. -/
def winHeights (address : Address) : List (Seat WinEntry) → List Int
  | [] => []
  | seat :: below => winHeights address below ++
    match seat.entry with
    | none => []
    | some win => if win.winner = address then List.replicate win.copies seat.height else []

variable {seats : List (Seat WinEntry)}

lemma mem_winHeights {address : Address} {height : Int} (member : height ∈ winHeights address seats) :
    ∃ seat ∈ seats, ∃ win, seat.entry = some win ∧ win.winner = address ∧ seat.height = height := by
  induction seats with
  | nil => cases member
  | cons seat below ih =>
    rcases mem_append.mp member with lower | here
    · obtain ⟨found, inside, rest⟩ := ih lower
      exact ⟨found, mem_cons_of_mem _ inside, rest⟩
    · cases entry : seat.entry with
      | none => simp [entry] at here
      | some win =>
        simp only [entry] at here
        split at here
        · rename_i isWinner
          exact ⟨seat, mem_cons_self, win, entry, isWinner, (eq_of_mem_replicate here).symm⟩
        · cases here

def WinsRecorded (seats : List (Seat WinEntry)) : Prop :=
  ∀ seat ∈ seats, ∀ win, seat.entry = some win → seat.height ≤ seat.peak ∧ 0 < win.copies ∧ 0 < win.timestamp

section

variable (address : Address) (seats : List (Seat WinEntry))

lemma winHeights_raise (height : Int) :
    winHeights address (seats.map fun seat => { seat with peak := max seat.peak height }) =
      winHeights address seats := by
  induction seats with
  | nil => rfl
  | cons seat below ih => rw [map_cons, winHeights, winHeights, ih]

lemma winHeights_push (win : WinEntry) :
    winHeights address (push seats (some win)) =
      winHeights address seats ++ if win.winner = address then replicate win.copies (seats.length : Int) else [] := by
  rw [push, winHeights, winHeights_raise]

lemma winHeights_push_none : winHeights address (push seats none) = winHeights address seats := by
  simp [push, winHeights]

end

lemma Stacked.eq_of_height (stacked : Stacked seats) {first second : Seat WinEntry} (one : first ∈ seats)
    (other : second ∈ seats) (same : first.height = second.height) : first = second := by
  induction seats with
  | nil => cases one
  | cons top below ih =>
    obtain ⟨height, -, -, rest⟩ := stacked
    rcases mem_cons.mp one with rfl | oneBelow
    · rcases mem_cons.mp other with rfl | otherBelow
      · rfl
      · have lower := rest.height_lt otherBelow
        omega
    · rcases mem_cons.mp other with rfl | otherBelow
      · have lower := rest.height_lt oneBelow
        omega
      · exact ih rest oneBelow otherBelow

lemma WinsRecorded.push (recorded : WinsRecorded seats) {entry : Option WinEntry}
    (good : ∀ win, entry = some win → 0 < win.copies ∧ 0 < win.timestamp) : WinsRecorded (push seats entry) := by
  cases entry with
  | none =>
    intro seat member win isEntry
    rcases mem_cons.mp member with rfl | below
    · cases isEntry
    · exact recorded seat below win isEntry
  | some new =>
    intro seat member win isEntry
    rcases mem_cons.mp member with rfl | raised
    · cases isEntry
      exact ⟨le_refl _, good _ rfl⟩
    · obtain ⟨old, inside, rfl⟩ := mem_map.mp raised
      obtain ⟨seen, rest⟩ := recorded old inside win isEntry
      exact ⟨le_max_of_le_left seen, rest⟩

lemma WinsRecorded.tail (recorded : WinsRecorded seats) : WinsRecorded seats.tail :=
  fun seat member => recorded seat (mem_of_mem_tail member)

lemma evicted_of_pushedOut {width : Int} (stacked : Stacked seats) (recorded : WinsRecorded seats)
    {seat : Seat WinEntry} (member : seat ∈ seats) {win : WinEntry} (isEntry : seat.entry = some win)
    (out : PushedOut width seats seat) :
    seat.evicted width = true := by
  obtain ⟨upper, isUpper, hasEntry, far⟩ := out
  obtain ⟨found, foundEntry⟩ := Option.ne_none_iff_exists'.mp hasEntry
  have seen := (recorded seat member win isEntry).1
  have seenUpper := (recorded upper isUpper found foundEntry).1
  simp only [Seat.evicted, decide_eq_true_eq]
  by_cases above : seat.height < upper.height
  · have peaks := stacked.peak_le isUpper member above
    omega
  · omega

lemma EvictedByChain.push {width : Int} (settled : EvictedByChain width seats) (stacked : Stacked seats)
    (entry : Option WinEntry) : EvictedByChain width (push seats entry) := by
  cases entry with
  | none =>
    intro seat member hasEntry gone
    rcases mem_cons.mp member with rfl | below
    · exact absurd rfl hasEntry
    · obtain ⟨upper, isUpper, rest⟩ := settled seat below hasEntry gone
      exact ⟨upper, mem_cons_of_mem _ isUpper, rest⟩
  | some new =>
    intro seat member hasEntry gone
    -- the new block is the highest that can push
    refine ⟨_, mem_cons_self, by simp, ?_⟩
    rcases mem_cons.mp member with rfl | raised
    · simpa [Seat.evicted] using gone
    · obtain ⟨old, inside, rfl⟩ := mem_map.mp raised
      simp only [Seat.evicted, decide_eq_true_eq] at gone ⊢
      by_cases before : old.height + width ≤ old.peak
      · obtain ⟨upper, isUpper, -, far⟩ := settled old inside hasEntry (by simpa [Seat.evicted] using before)
        have lower := stacked.height_lt isUpper
        omega
      · omega

/-! What the tracker holds after a clear run: the wins that are left in the window, and for every miner the
heights of its blocks on the chain. A replay of the chain holds the same window, so both give the same
answers for the next height. -/

open SortedMap CCooldownTracker

namespace CCooldownTracker

variable {tracker : CCooldownTracker} {height blockTimestamp : Int} {winner : Address}

lemma heightToWinner_recordWin : (tracker.recordWin height winner blockTimestamp).heightToWinner =
    tracker.heightToWinner.insert height winner := by
  unfold recordWin
  split <;> rfl

lemma heightToTimestamp_recordWin (positive : 0 < blockTimestamp) :
    (tracker.recordWin height winner blockTimestamp).heightToTimestamp =
      tracker.heightToTimestamp.insert height blockTimestamp := by
  unfold recordWin
  rw [if_pos positive]

lemma sameLifetime_onBlockConnected (tracker : CCooldownTracker) (height : Int) (winner : Address)
    (blockTimestamp : Int) :
    SameLifetime (tracker.recordWin height winner blockTimestamp).uncached
      (tracker.onBlockConnected height winner blockTimestamp).uncached := by
  rw [uncached_onBlockConnected]
  have same := sameLifetime_evictAll (height - tracker.params.activeWindow + 1)
    (tracker.recordWin height winner blockTimestamp)
      (tracker.recordWin height winner blockTimestamp).heightToWinner.entries
  exact ⟨same.params, same.registrations, same.lifetime, same.heights, rfl, rfl⟩

lemma params_onBlockConnected (tracker : CCooldownTracker) (height : Int) (winner : Address) (blockTimestamp : Int) :
    (tracker.onBlockConnected height winner blockTimestamp).params = tracker.params := by
  refine (sameLifetime_onBlockConnected tracker height winner blockTimestamp).params.trans ?_
  unfold recordWin
  split <;> rfl

structure Lifetime (heights : Address → List Int) (tracker : CCooldownTracker) : Prop where
  counts : ∀ address count, (address, count) ∈ tracker.lifetimeBlockCount ↔
    heights address ≠ [] ∧ count = ((heights address).length : Int)
  recorded : ∀ address found, (address, found) ∈ tracker.mikHeights ↔ heights address ≠ [] ∧ found = heights address

variable {heights : Address → List Int}

lemma Lifetime.count_eq (lifetime : Lifetime heights tracker) (address : Address) :
    (tracker.lifetimeBlockCount.find address).getD 0 = ((heights address).length : Int) := by
  cases found : tracker.lifetimeBlockCount.find address with
  | none =>
    have absent := find_eq_none_iff.mp found
    by_cases blank : heights address = []
    · simp [blank]
    · exact absurd ((lifetime.counts address _).mpr ⟨blank, rfl⟩) (absent _)
  | some count => exact ((lifetime.counts address count).mp (find_eq_some_iff.mp found)).2

lemma Lifetime.heights_eq (lifetime : Lifetime heights tracker) (address : Address) :
    (tracker.mikHeights.find address).getD [] = heights address := by
  cases found : tracker.mikHeights.find address with
  | none =>
    have absent := find_eq_none_iff.mp found
    by_cases blank : heights address = []
    · simp [blank]
    · exact absurd ((lifetime.recorded address _).mpr ⟨blank, rfl⟩) (absent _)
  | some list => exact ((lifetime.recorded address list).mp (find_eq_some_iff.mp found)).2

lemma Lifetime.congr {heights others : Address → List Int} (lifetime : Lifetime heights tracker)
    (same : ∀ address, heights address = others address) : Lifetime others tracker :=
  (funext same : heights = others) ▸ lifetime

lemma Lifetime.onBlockConnected (lifetime : Lifetime heights tracker) (height : Int) (winner : Address)
    (blockTimestamp : Int) :
    Lifetime (fun address =>
        if address = winner then (heights address).orderedInsert (· ≤ ·) height else heights address)
      (tracker.onBlockConnected height winner blockTimestamp) := by
  have same := sameLifetime_onBlockConnected tracker height winner blockTimestamp
  have counts : (tracker.onBlockConnected height winner blockTimestamp).lifetimeBlockCount =
      tracker.lifetimeBlockCount.insert winner ((heights winner).length + 1) := by
    refine Eq.trans same.lifetime ?_
    rw [← lifetime.count_eq]
    unfold recordWin
    split <;> rfl
  have recorded : (tracker.onBlockConnected height winner blockTimestamp).mikHeights =
      tracker.mikHeights.insert winner ((heights winner).orderedInsert (· ≤ ·) height) := by
    refine Eq.trans same.heights ?_
    rw [← lifetime.heights_eq]
    unfold recordWin
    split <;> rfl
  have nonempty : (heights winner).orderedInsert (· ≤ ·) height ≠ [] := by
    intro blank
    have length := congrArg length blank
    simp [orderedInsert_length] at length
  constructor
  · intro address count
    rw [counts, mem_insert, lifetime.counts]
    by_cases isWinner : address = winner
    · subst isWinner
      simp [nonempty, orderedInsert_length]
    · simp [isWinner]
  · intro address found
    rw [recorded, mem_insert, lifetime.recorded]
    by_cases isWinner : address = winner
    · subst isWinner
      simp [nonempty]
    · simp [isWinner]

lemma Lifetime.forgetLifetime (lifetime : Lifetime heights tracker) (recorded : height ∈ heights winner) :
    Lifetime (fun address => if address = winner then (heights address).erase height else heights address)
      (tracker.forgetLifetime height winner) := by
  have nonempty : heights winner ≠ [] := ne_nil_of_mem recorded
  have count : tracker.lifetimeBlockCount.find winner = some ((heights winner).length : Int) :=
    find_eq_some_iff.mpr ((lifetime.counts winner _).mpr ⟨nonempty, rfl⟩)
  have found : tracker.mikHeights.find winner = some (heights winner) :=
    find_eq_some_iff.mpr ((lifetime.recorded winner _).mpr ⟨nonempty, rfl⟩)
  have fewer : ((heights winner).erase height).length + 1 = (heights winner).length := by
    rw [length_erase_of_mem recorded, Nat.sub_add_cancel (length_pos_of_ne_nil nonempty)]
  unfold CCooldownTracker.forgetLifetime
  rw [count, found]
  constructor
  · intro address number
    dsimp only
    by_cases last : (heights winner).erase height = []
    · have one : ((heights winner).length : Int) - 1 ≤ 0 := by
        rw [last] at fewer
        simp at fewer
        omega
      rw [if_pos one, mem_erase, lifetime.counts]
      by_cases isWinner : address = winner
      · subst isWinner
        simp [last]
      · simp [isWinner]
    · have more : ¬ ((heights winner).length : Int) - 1 ≤ 0 := by
        have := length_pos_of_ne_nil last
        omega
      rw [if_neg more, mem_insert, Prod.mk.injEq, lifetime.counts]
      by_cases isWinner : address = winner
      · subst isWinner
        simp only [true_and, ne_eq, not_true_eq_false, false_and, or_false, if_true, last, not_false_eq_true]
        omega
      · simp [isWinner]
  · intro address list
    dsimp only
    by_cases last : (heights winner).erase height = []
    · rw [last, if_pos (by simp), mem_erase, lifetime.recorded]
      by_cases isWinner : address = winner
      · subst isWinner
        simp [last]
      · simp [isWinner]
    · rw [if_neg (by simpa using last), mem_insert, lifetime.recorded]
      by_cases isWinner : address = winner
      · subst isWinner
        simp [last]
      · simp [isWinner]

/-- Without what a disconnect may rebuild: last wins and caches. -/
structure Withdrawn (height : Int) (winner : Address) (before after : CCooldownTracker) : Prop where
  params : after.params = before.params
  winners : after.heightToWinner = before.heightToWinner.erase height
  timestamps : after.heightToTimestamp = before.heightToTimestamp.erase height
  registrations : after.heightToRegistration = before.heightToRegistration.erase height
  counts : after.lifetimeBlockCount = (before.forgetLifetime height winner).lifetimeBlockCount
  recorded : after.mikHeights = (before.forgetLifetime height winner).mikHeights
  cachedAt : after.cachedAtHeight = -1
  cachedShortAt : after.cachedShortAtHeight = -1

lemma withdrawn_of_window (won : (height, winner) ∈ tracker.heightToWinner) :
    Withdrawn height winner tracker (tracker.onBlockDisconnected height) := by
  unfold onBlockDisconnected
  rw [find_eq_some_iff.mpr won]
  unfold restoreLastWin
  dsimp only
  split <;> exact ⟨rfl, rfl, rfl, rfl, rfl, rfl, rfl, rfl⟩

section

variable (lifetime : Lifetime heights tracker)

include lifetime

lemma Lifetime.onBlockDisconnected {after : CCooldownTracker}
    (recorded : height ∈ heights winner) (withdrawn : Withdrawn height winner tracker after) :
    Lifetime (fun address => if address = winner then (heights address).erase height else heights address) after := by
  have forgotten := lifetime.forgetLifetime recorded
  exact ⟨fun address count => withdrawn.counts ▸ forgotten.counts address count,
    fun address found => withdrawn.recorded ▸ forgotten.recorded address found⟩

section

variable (absent : ∀ address, (height, address) ∉ tracker.heightToWinner)

include absent

/-- A height that has left the window is found among those of its miner. -/
lemma withdrawn_of_lifetime (recorded : height ∈ heights winner)
    (alone : ∀ address, height ∈ heights address → address = winner) :
    Withdrawn height winner tracker (tracker.onBlockDisconnected height) ∧
      (tracker.onBlockDisconnected height).lastWinHeight = tracker.lastWinHeight ∧
      (tracker.onBlockDisconnected height).lastWinTimestamp = tracker.lastWinTimestamp := by
  have isFound : (winner, heights winner) ∈ tracker.mikHeights :=
    (lifetime.recorded winner _).mpr ⟨ne_nil_of_mem recorded, rfl⟩
  unfold onBlockDisconnected
  rw [find_eq_none_iff.mpr absent]
  cases search : tracker.mikHeights.entries.find? fun entry => entry.2.contains height with
  | none =>
    have lacks := find?_eq_none.mp search _ isFound
    simp [recorded] at lacks
  | some entry =>
    obtain ⟨address, list⟩ := entry
    have holds := find?_some search
    have inside : (address, list) ∈ tracker.mikHeights := mem_of_find?_eq_some search
    rw [((lifetime.recorded address list).mp inside).2] at holds
    cases alone address (by simpa using holds)
    exact ⟨⟨rfl, (erase_of_absent absent).symm, rfl, rfl, rfl, rfl, rfl, rfl⟩, rfl, rfl⟩

lemma onBlockDisconnected_unknown (unrecorded : ∀ address, height ∉ heights address) :
    tracker.onBlockDisconnected height = tracker := by
  unfold onBlockDisconnected
  rw [find_eq_none_iff.mpr absent]
  cases search : tracker.mikHeights.entries.find? fun entry => entry.2.contains height with
  | none => rfl
  | some entry =>
    have holds := find?_some search
    have inside : (entry.1, entry.2) ∈ tracker.mikHeights := mem_of_find?_eq_some search
    rw [((lifetime.recorded entry.1 entry.2).mp inside).2] at holds
    exact absurd (by simpa using holds) (unrecorded entry.1)

end

end

end CCooldownTracker

/-- The window holds what the seats have left in it, and the lifetime records hold every recorded seat. -/
structure ReflectsSeats (params : CooldownParams) (seats : List (Seat WinEntry))
    (tracker : CCooldownTracker) : Prop where
  sameParams : tracker.params = params
  stacked : Stacked seats
  recorded : WinsRecorded seats
  coherent : tracker.Coherent
  winners : ∀ height address, (height, address) ∈ tracker.heightToWinner ↔
    ∃ win, (height, win) ∈ kept params.activeWindow seats ∧ win.winner = address
  timestamps : ∀ height timestamp, (height, timestamp) ∈ tracker.heightToTimestamp ↔
    ∃ win, (height, win) ∈ kept params.activeWindow seats ∧ win.timestamp = timestamp
  lifetime : tracker.Lifetime fun address => winHeights address seats

lemma orderedInsert_heights {low : List Int} {height : Int} (below : ∀ lower ∈ low, lower < height) (copies : Nat) :
    (low ++ replicate copies height).orderedInsert (· ≤ ·) height = low ++ replicate (copies + 1) height := by
  induction low with
  | nil =>
    cases copies with
    | zero => rfl
    | succ copies => simp [replicate_succ]
  | cons first rest ih =>
    have lower := below first mem_cons_self
    rw [cons_append, orderedInsert, if_neg (by omega), ih fun other inside => below other (mem_cons_of_mem _ inside),
      cons_append]

namespace ReflectsSeats

variable {params : CooldownParams} {seats below : List (Seat WinEntry)} {tracker : CCooldownTracker}
  {top : Seat WinEntry} {win : WinEntry}
  {height timestamp : Int} {address : Address}

lemma new (params : CooldownParams) : ReflectsSeats params [] { params } where
  sameParams := rfl
  stacked := trivial
  recorded := by simp [WinsRecorded]
  coherent := coherent_new params
  winners := by simp [kept]
  timestamps := by simp [kept]
  lifetime := ⟨by simp [winHeights], by simp [winHeights]⟩

section

variable (reflects : ReflectsSeats params seats tracker)

include reflects

lemma of_uncached {other : CCooldownTracker} (same : other.uncached = tracker.uncached) :
    ReflectsSeats params seats other := by
  have coherent := reflects.coherent.of_uncached same
  have again : ReflectsSeats params seats tracker.uncached :=
    ⟨reflects.sameParams, reflects.stacked, reflects.recorded, reflects.coherent.of_uncached rfl,
      reflects.winners, reflects.timestamps,
      ⟨reflects.lifetime.counts, reflects.lifetime.recorded⟩⟩
  rw [← same] at again
  exact ⟨again.sameParams, again.stacked, again.recorded, coherent, again.winners, again.timestamps,
    ⟨again.lifetime.counts, again.lifetime.recorded⟩⟩

lemma height_lt (won : (height, address) ∈ tracker.heightToWinner) : 0 ≤ height ∧ height < seats.length := by
  obtain ⟨win, inside, -⟩ := (reflects.winners height address).mp won
  obtain ⟨seat, member, -, -, rfl⟩ := mem_kept_iff.mp inside
  exact ⟨reflects.coherent.nonneg _ won, reflects.stacked.height_lt member⟩

lemma winHeights_lt (inside : height ∈ winHeights address seats) : height < seats.length := by
  obtain ⟨seat, member, -, -, -, rfl⟩ := mem_winHeights inside
  exact reflects.stacked.height_lt member

/-- A block is recorded at the next height, on top of the records it may have there already. -/
lemma record {before : CCooldownTracker} {copies : Nat} (positive : 0 < timestamp)
    (sameParams : before.params = params) (coherent : before.Coherent) (fits : before.Fits seats.length address)
    (winners : ∀ (height : Int) other, height ≠ seats.length → (seats.length : Int) - params.activeWindow < height →
      ((height, other) ∈ before.heightToWinner ↔ (height, other) ∈ tracker.heightToWinner))
    (timestamps : ∀ (height : Int) other, height ≠ seats.length → (seats.length : Int) - params.activeWindow < height →
      ((height, other) ∈ before.heightToTimestamp ↔ (height, other) ∈ tracker.heightToTimestamp))
    (lifetime : before.Lifetime fun other =>
      winHeights other seats ++ if address = other then replicate copies (seats.length : Int) else []) :
    ReflectsSeats params (push seats (some ⟨address, timestamp, copies + 1⟩))
      (before.onBlockConnected seats.length address timestamp) := by
  have trimmed := coherent.onBlockConnected fits positive
  rw [sameParams] at trimmed
  refine ⟨?_, reflects.stacked.push _, reflects.recorded.push ?_, trimmed.coherent, ?_, ?_, ?_⟩
  · exact (before.params_onBlockConnected seats.length address timestamp).trans sameParams
  · rintro win ⟨⟩
    exact ⟨Nat.succ_pos _, positive⟩
  · intro height other
    rw [trimmed.winners, heightToWinner_recordWin, mem_insert]
    simp only [mem_kept_push_some, Prod.mk.injEq]
    constructor
    · rintro ⟨⟨rfl, rfl⟩ | ⟨apart, inside⟩, above⟩
      · exact ⟨_, ⟨.inl ⟨rfl, rfl⟩, by omega⟩, rfl⟩
      · obtain ⟨win, stays, isWinner⟩ :=
          (reflects.winners height other).mp ((winners height other apart (by omega)).mp inside)
        exact ⟨win, ⟨.inr stays, by omega⟩, isWinner⟩
    · rintro ⟨win, ⟨⟨rfl, rfl⟩ | stays, above⟩, rfl⟩
      · exact ⟨.inl ⟨rfl, rfl⟩, by omega⟩
      · have inside := (reflects.winners height win.winner).mpr ⟨win, stays, rfl⟩
        have apart : height ≠ seats.length := ne_of_lt (reflects.height_lt inside).2
        exact ⟨.inr ⟨apart, (winners height _ apart above).mpr inside⟩, by omega⟩
  · intro height other
    rw [trimmed.timestamps, heightToTimestamp_recordWin positive, mem_insert]
    simp only [mem_kept_push_some, Prod.mk.injEq]
    constructor
    · rintro ⟨⟨rfl, rfl⟩ | ⟨apart, inside⟩, above⟩
      · exact ⟨_, ⟨.inl ⟨rfl, rfl⟩, by omega⟩, rfl⟩
      · obtain ⟨win, stays, isTime⟩ :=
          (reflects.timestamps height other).mp ((timestamps height other apart (by omega)).mp inside)
        exact ⟨win, ⟨.inr stays, by omega⟩, isTime⟩
    · rintro ⟨win, ⟨⟨rfl, rfl⟩ | stays, above⟩, rfl⟩
      · exact ⟨.inl ⟨rfl, rfl⟩, by omega⟩
      · have won := (reflects.winners height win.winner).mpr ⟨win, stays, rfl⟩
        have apart : height ≠ seats.length := ne_of_lt (reflects.height_lt won).2
        have inside := (reflects.timestamps height win.timestamp).mpr ⟨win, stays, rfl⟩
        exact ⟨.inr ⟨apart, (timestamps height _ apart above).mpr inside⟩, by omega⟩
  · refine (lifetime.onBlockConnected seats.length address timestamp).congr fun other => ?_
    rw [winHeights_push]
    by_cases same : other = address
    · subst same
      rw [if_pos rfl, if_pos rfl, if_pos rfl, orderedInsert_heights fun lower inside => reflects.winHeights_lt inside]
    · rw [if_neg same, if_neg (Ne.symm same), if_neg (Ne.symm same)]

lemma first (positive : 0 < timestamp) (address : Address) :
    ReflectsSeats params (push seats (some ⟨address, timestamp, 1⟩))
      (tracker.onBlockConnected seats.length address timestamp) := by
  refine reflects.record positive reflects.sameParams reflects.coherent ⟨?_, ?_, ?_⟩ (fun _ _ _ _ => Iff.rfl)
    (fun _ _ _ _ => Iff.rfl)
    (reflects.lifetime.congr fun other => by simp)
  · exact Int.natCast_nonneg _
  · exact fun item inside => le_of_lt (reflects.height_lt inside).2
  · exact fun other inside => absurd (reflects.height_lt inside).2 (lt_irrefl _)

end

lemma again (base : ReflectsSeats params seats tracker) {now : CCooldownTracker} {copies : Nat}
    (positive : 0 < timestamp)
    (reflects : ReflectsSeats params (push seats (some ⟨address, timestamp, copies⟩)) now) :
    ReflectsSeats params (push seats (some ⟨address, timestamp, copies + 1⟩))
      (now.onBlockConnected seats.length address timestamp) := by
  refine base.record positive reflects.sameParams reflects.coherent ⟨Int.natCast_nonneg _, ?_, ?_⟩ ?_ ?_ ?_
  · intro item inside
    have lower := (reflects.height_lt inside).2
    simp only [push, length_cons, length_map] at lower
    omega
  · intro other inside
    obtain ⟨win, stays, rfl⟩ := (reflects.winners _ other).mp inside
    rcases mem_kept_push_some.mp stays with ⟨same | old, -⟩
    · rw [(Prod.mk.inj same).2]
    · obtain ⟨seat, member, -, -, isHeight⟩ := mem_kept_iff.mp old
      have lower := base.stacked.height_lt member
      omega
  · intro height other apart above
    rw [reflects.winners, base.winners]
    simp [mem_kept_push_some, apart, above]
  · intro height other apart above
    rw [reflects.timestamps, base.timestamps]
    simp [mem_kept_push_some, apart, above]
  · exact reflects.lifetime.congr fun other => winHeights_push other seats _

lemma pass (reflects : ReflectsSeats params seats tracker) : ReflectsSeats params (push seats none) tracker where
  sameParams := reflects.sameParams
  stacked := reflects.stacked.push none
  recorded := reflects.recorded.push (by simp)
  coherent := reflects.coherent
  winners := by
    intro height address
    rw [kept_push_none, reflects.winners]
  timestamps := by
    intro height timestamp
    rw [kept_push_none, reflects.timestamps]
  lifetime := reflects.lifetime.congr fun other => (winHeights_push_none other seats).symm

lemma mem_kept_below (stacked : Stacked (top :: below)) {width : Int} {item : Int × WinEntry} :
    item ∈ kept width below ↔ item.1 ≠ below.length ∧ item ∈ kept width (top :: below) := by
  obtain ⟨isHeight, -, -, rest⟩ := stacked
  simp only [mem_kept_iff, mem_cons]
  constructor
  · rintro ⟨seat, inside, stays, isEntry, atHeight⟩
    have lower := rest.height_lt inside
    exact ⟨by omega, seat, .inr inside, stays, isEntry, atHeight⟩
  · rintro ⟨apart, seat, rfl | inside, stays, isEntry, atHeight⟩
    · exact absurd (atHeight.symm.trans isHeight) apart
    · exact ⟨seat, inside, stays, isEntry, atHeight⟩

lemma top_alone (stacked : Stacked (top :: below)) (isEntry : top.entry = some win)
    (inside : (below.length : Int) ∈ winHeights address (top :: below)) : address = win.winner := by
  obtain ⟨seat, member, found, foundEntry, rfl, atHeight⟩ := mem_winHeights inside
  have same := Stacked.eq_of_height stacked member mem_cons_self (atHeight.trans stacked.1.symm)
  rw [same, isEntry] at foundEntry
  rw [Option.some.inj foundEntry]

lemma withdraw (reflects : ReflectsSeats params (top :: below) tracker) (isEntry : top.entry = some win)
    (once : win.copies = 1) :
    CCooldownTracker.Withdrawn below.length win.winner tracker (tracker.onBlockDisconnected below.length) ∧
      ReflectsSeats params below (tracker.onBlockDisconnected below.length) := by
  obtain ⟨isHeight, -, -, rest⟩ := id reflects.stacked
  have heights : ∀ address, winHeights address (top :: below) =
      winHeights address below ++ if win.winner = address then [(below.length : Int)] else [] := by
    intro address
    simp [winHeights, isEntry, once, isHeight]
  have listed : (below.length : Int) ∈ winHeights win.winner (top :: below) := by simp [heights]
  have fresh : ∀ address, (below.length : Int) ∉ winHeights address below := by
    intro address inside
    obtain ⟨seat, member, -, -, -, atHeight⟩ := mem_winHeights inside
    exact absurd atHeight (ne_of_lt (rest.height_lt member))
  have lifetime {after : CCooldownTracker}
      (withdrawn : CCooldownTracker.Withdrawn below.length win.winner tracker after) :
      after.Lifetime fun address => winHeights address below := by
    refine (reflects.lifetime.onBlockDisconnected listed withdrawn).congr fun address => ?_
    by_cases isWinner : address = win.winner
    · subst isWinner
      rw [if_pos rfl, heights, if_pos rfl, erase_append_right _ (fresh _), erase_cons_head, append_nil]
    · rw [if_neg isWinner, heights, if_neg (Ne.symm isWinner), append_nil]
  have assemble {after : CCooldownTracker}
      (withdrawn : CCooldownTracker.Withdrawn below.length win.winner tracker after)
      (coherent : after.Coherent) : ReflectsSeats params below after := by
    refine ⟨withdrawn.params.trans reflects.sameParams, rest, reflects.recorded.tail, coherent,
      ?_, ?_, lifetime withdrawn⟩
    · intro height address
      rw [withdrawn.winners, mem_erase, reflects.winners]
      simp [mem_kept_below reflects.stacked, and_assoc]
    · intro height timestamp
      rw [withdrawn.timestamps, mem_erase, reflects.timestamps]
      simp [mem_kept_below reflects.stacked, and_assoc]
  by_cases inWindow : ((below.length : Int), win.winner) ∈ tracker.heightToWinner
  · have withdrawn := withdrawn_of_window inWindow
    exact ⟨withdrawn, assemble withdrawn (reflects.coherent.onBlockDisconnected inWindow)⟩
  · -- the height has left the window, so the four maps of the window stay as they are
    have absent : ∀ address, ((below.length : Int), address) ∉ tracker.heightToWinner := by
      intro address won
      obtain ⟨found, stays, rfl⟩ := (reflects.winners _ address).mp won
      obtain ⟨seat, member, -, foundEntry, atHeight⟩ := mem_kept_iff.mp stays
      have same := Stacked.eq_of_height reflects.stacked member mem_cons_self (atHeight.trans isHeight.symm)
      rw [same, isEntry] at foundEntry
      cases foundEntry
      exact inWindow won
    obtain ⟨withdrawn, lastWin, lastTime⟩ := withdrawn_of_lifetime reflects.lifetime absent listed
      fun address inside => top_alone reflects.stacked isEntry inside
    have untimed : ∀ timestamp, ((below.length : Int), timestamp) ∉ tracker.heightToTimestamp := by
      intro timestamp timed
      obtain ⟨address, won⟩ := (reflects.coherent.timed _).mp ⟨timestamp, timed⟩
      exact absent address won
    have winners := withdrawn.winners.trans (erase_of_absent absent)
    have timestamps := withdrawn.timestamps.trans (erase_of_absent untimed)
    refine ⟨withdrawn, assemble withdrawn ⟨?_, ?_, ?_, ?_⟩⟩
    · exact fun item inside => reflects.coherent.nonneg item (winners ▸ inside)
    · exact fun height => by rw [winners, timestamps, reflects.coherent.timed]
    · exact fun address height => by rw [winners, lastWin, reflects.coherent.lastWin]
    · exact fun address timestamp => by rw [timestamps, lastWin, lastTime, reflects.coherent.lastTime]

lemma drop (reflects : ReflectsSeats params (top :: below) tracker) (isEntry : top.entry = none) :
    tracker.onBlockDisconnected below.length = tracker ∧ ReflectsSeats params below tracker := by
  obtain ⟨isHeight, -, -, rest⟩ := id reflects.stacked
  have nobody : ∀ seat ∈ top :: below, seat.height = below.length → seat.entry = none := by
    intro seat member atHeight
    rw [Stacked.eq_of_height reflects.stacked member mem_cons_self (atHeight.trans isHeight.symm), isEntry]
  have absent : ∀ win : WinEntry, ((below.length : Int), win) ∉ kept params.activeWindow (top :: below) := by
    intro win stays
    obtain ⟨seat, member, -, foundEntry, atHeight⟩ := mem_kept_iff.mp stays
    cases (nobody seat member atHeight).symm.trans foundEntry
  have same : ∀ item : Int × WinEntry, item ∈ kept params.activeWindow below ↔
      item ∈ kept params.activeWindow (top :: below) := by
    rintro ⟨height, win⟩
    rw [mem_kept_below reflects.stacked]
    refine ⟨And.right, fun stays => ⟨?_, stays⟩⟩
    rintro rfl
    exact absent win stays
  refine ⟨onBlockDisconnected_unknown reflects.lifetime ?_ ?_, ⟨reflects.sameParams, rest, reflects.recorded.tail,
    reflects.coherent, ?_, ?_, reflects.lifetime.congr fun address => ?_⟩⟩
  · intro address won
    obtain ⟨win, stays, -⟩ := (reflects.winners _ address).mp won
    exact absent win stays
  · intro address inside
    obtain ⟨seat, member, win, foundEntry, -, atHeight⟩ := mem_winHeights inside
    cases (nobody seat member atHeight).symm.trans foundEntry
  · intro height address
    simp only [same, reflects.winners]
  · intro height timestamp
    simp only [same, reflects.timestamps]
  · simp [winHeights, isEntry]

end ReflectsSeats

end Dilithion
