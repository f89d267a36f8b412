import Dilithion.Vdf.CooldownReplay

/-! What the tracker answers along a chain with reorganisations. Two trackers with the same chain give the same answers,
since what they answer from is a function of the wins of the chain. -/

namespace Dilithion

open Lib SlidingWindow CCooldownTracker CooldownEnv SortedMap List Option

namespace CCooldownTracker

variable (tracker : CCooldownTracker)

lemma uncached_ask (query : CooldownQuery) : (tracker.ask query).uncached = tracker.uncached := by
  cases query with
  | isInCooldown addr height currentTimestamp => exact uncached_isInCooldown tracker addr height currentTimestamp
  | effectiveCooldown height => exact uncached_computeEffectiveCooldown tracker height

lemma uncached_asks (queries : List CooldownQuery) : (queries.foldl ask tracker).uncached = tracker.uncached := by
  induction queries generalizing tracker with
  | nil => rfl
  | cons query rest ih => exact (ih _).trans (uncached_ask tracker query)

/-- The cached counts are those of the winners; the long one may be stale for some heights. -/
structure Cached (stale : Int → Prop) (tracker : CCooldownTracker) : Prop where
  long : 0 ≤ tracker.cachedAtHeight →
    tracker.cachedActiveMiners = uniqueMiners tracker.heightToWinner tracker.params.activeWindow
      tracker.cachedAtHeight ∨
      stale tracker.cachedAtHeight
  short : 0 ≤ tracker.cachedShortAtHeight → tracker.cachedShortActiveMiners =
    if tracker.params.shortWindow ≤ 0 then 0
    else uniqueMiners tracker.heightToWinner tracker.params.shortWindow tracker.cachedShortAtHeight

namespace Cached

variable {tracker} {stale : Int → Prop}

lemma of_empty (long : tracker.cachedAtHeight = -1) (short : tracker.cachedShortAtHeight = -1) : Cached stale tracker :=
  ⟨fun counted => absurd (long ▸ counted) (by decide), fun counted => absurd (short ▸ counted) (by decide)⟩

/-- The short count is not cached, and the long one is right or stale. -/
lemma of_long (short : tracker.cachedShortAtHeight = -1)
    (long : tracker.cachedActiveMiners =
      uniqueMiners tracker.heightToWinner tracker.params.activeWindow tracker.cachedAtHeight ∨
      stale tracker.cachedAtHeight) : Cached stale tracker :=
  ⟨fun _ => long, fun counted => absurd (short ▸ counted) (by decide)⟩

lemma mono {other : Int → Prop} (cached : Cached stale tracker)
    (wider : stale tracker.cachedAtHeight → other tracker.cachedAtHeight) : Cached other tracker :=
  ⟨fun counted => (cached.long counted).imp_right wider, cached.short⟩

variable (cached : Cached stale tracker)

include cached

lemma recalcActiveMiners (height : Int) : Cached stale (tracker.recalcActiveMiners height) := by
  unfold CCooldownTracker.recalcActiveMiners
  split
  · exact cached
  · exact ⟨fun _ => .inl rfl, cached.short⟩

lemma computeEffectiveCooldown (height : Int) : Cached stale (tracker.computeEffectiveCooldown height).2 := by
  unfold CCooldownTracker.computeEffectiveCooldown CCooldownTracker.recalcShortActiveMiners
  dsimp only
  split
  · split
    · exact cached.recalcActiveMiners height
    · exact ⟨(cached.recalcActiveMiners height).long, fun _ => rfl⟩
  · exact cached.recalcActiveMiners height

lemma isInCooldown (addr : Address) (height currentTimestamp : Int) :
    Cached stale (tracker.isInCooldown addr height currentTimestamp).2 := by
  unfold CCooldownTracker.isInCooldown
  split
  · exact cached
  · exact cached.computeEffectiveCooldown height

lemma asks (queries : List CooldownQuery) : Cached stale (queries.foldl ask tracker) := by
  induction queries generalizing tracker with
  | nil => exact cached
  | cons query rest ih =>
    cases query with
    | isInCooldown addr height currentTimestamp => exact ih (cached.isInCooldown addr height currentTimestamp)
    | effectiveCooldown height => exact ih (cached.computeEffectiveCooldown height)

/-- Nothing that is cached changes the cooldown for a height whose count is not stale. -/
lemma effective_eq {height : Int} (nonneg : 0 ≤ height) (fresh : ¬ stale height) :
    (tracker.computeEffectiveCooldown height).1 = effectiveCooldownOf tracker.params tracker.heightToWinner height := by
  have same := uncached_recalcActiveMiners tracker height
  have winners : (tracker.recalcActiveMiners height).heightToWinner = tracker.heightToWinner :=
    (congrArg heightToWinner same :)
  have params : (tracker.recalcActiveMiners height).params = tracker.params := (congrArg CCooldownTracker.params same :)
  have again := cached.recalcActiveMiners height
  have long := again.long
  rw [cachedAtHeight_recalcActiveMiners, winners, params] at long
  unfold CCooldownTracker.computeEffectiveCooldown effectiveCooldownOf CCooldownTracker.recalcShortActiveMiners
  dsimp only
  rw [(long nonneg).resolve_right fresh, params]
  split
  case isTrue late =>
    split
    case isTrue isAt => rw [again.short (by omega), isAt, winners, params, if_neg (by omega)]
    case isFalse => rw [winners, if_neg (by omega)]
  case isFalse => rfl

end Cached

end CCooldownTracker

/-- The tracker reflects the seats, and its caches are right where no block is recorded. -/
structure Tracks (params : CooldownParams) (seats : List (Seat WinEntry)) (tracker : CCooldownTracker) : Prop where
  reflects : ReflectsSeats params seats tracker
  caches : Cached (fun height => ∃ seat ∈ seats, seat.height = height ∧ seat.entry ≠ none) tracker

namespace Tracks

variable {params : CooldownParams} {seats below : List (Seat WinEntry)} {tracker : CCooldownTracker}
  {top : Seat WinEntry} {win : WinEntry}
  {height timestamp : Int} {address : Address}

lemma new (params : CooldownParams) : Tracks params [] { params } := ⟨.new params, .of_empty rfl rfl⟩

lemma asks (tracks : Tracks params seats tracker) (queries : List CooldownQuery) :
    Tracks params seats (queries.foldl CCooldownTracker.ask tracker) :=
  ⟨tracks.reflects.of_uncached (uncached_asks tracker queries), tracks.caches.asks queries⟩

/-- A record at the next height leaves a count that is cached for that height. -/
lemma of_recorded
    (reflects : ReflectsSeats params (push seats (some win))
      (tracker.onBlockConnected seats.length address timestamp)) :
    Tracks params (push seats (some win)) (tracker.onBlockConnected seats.length address timestamp) := by
  refine ⟨reflects, .of_long rfl (.inr ⟨_, mem_cons_self, ?_, by simp⟩)⟩
  exact (cachedAtHeight_recalcActiveMiners _ _).symm

lemma pass (tracks : Tracks params seats tracker) : Tracks params (push seats none) tracker := by
  refine ⟨tracks.reflects.pass, tracks.caches.mono ?_⟩
  rintro ⟨seat, inside, isThere⟩
  exact ⟨seat, mem_cons_of_mem _ inside, isThere⟩

lemma withdraw (tracks : Tracks params (top :: below) tracker) (isEntry : top.entry = some win)
    (once : win.copies = 1) :
    Tracks params below (tracker.onBlockDisconnected below.length) := by
  obtain ⟨withdrawn, reflects⟩ := tracks.reflects.withdraw isEntry once
  exact ⟨reflects, .of_empty withdrawn.cachedAt withdrawn.cachedShortAt⟩

lemma drop (tracks : Tracks params (top :: below) tracker) (isEntry : top.entry = none) :
    Tracks params below tracker := by
  refine ⟨(tracks.reflects.drop isEntry).2, tracks.caches.mono ?_⟩
  rintro ⟨seat, inside, isHeight, hasEntry⟩
  rcases mem_cons.mp inside with rfl | deeper
  · exact absurd isEntry hasEntry
  · exact ⟨seat, deeper, isHeight, hasEntry⟩

/-- Nothing that is cached changes the answer for the next height. -/
lemma effective_eq (tracks : Tracks params seats tracker) : (tracker.computeEffectiveCooldown seats.length).1 =
    effectiveCooldownOf params tracker.heightToWinner seats.length := by
  rw [← tracks.reflects.sameParams]
  refine tracks.caches.effective_eq (by omega) ?_
  rintro ⟨seat, inside, isHeight, -⟩
  have lower := tracks.reflects.stacked.height_lt inside
  omega

end Tracks

def notedBy {α : Type} (note : CBlock → Int → Option α) : List CBlock → List (Int × α)
  | [] => []
  | block :: below => notedBy note below ++
      ((note block below.length).map fun found => ((below.length : Int), found)).toList

variable {block : CBlock}

lemma mem_notedBy_cons {α : Type} {note : CBlock → Int → Option α} {below : List CBlock} {item : Int × α} :
    item ∈ notedBy note (block :: below) ↔
      item ∈ notedBy note below ∨ item.1 = below.length ∧ note block below.length = some item.2 := by
  rw [notedBy, mem_append, mem_toList, map_eq_some_iff]
  refine or_congr_right ⟨?_, ?_⟩
  · rintro ⟨found, isNoted, rfl⟩
    exact ⟨rfl, isNoted⟩
  · rintro ⟨isHeight, isNoted⟩
    exact ⟨item.2, isNoted, Prod.ext isHeight.symm rfl⟩

lemma lt_of_mem_notedBy {α : Type} {note : CBlock → Int → Option α} {blocks : List CBlock} {item : Int × α}
    (inside : item ∈ notedBy note blocks) : item.1 < blocks.length := by
  induction blocks with
  | nil => cases inside
  | cons block below ih =>
    rw [length_cons]
    rcases mem_notedBy_cons.mp inside with deeper | ⟨isHeight, -⟩
    · have lower := ih deeper
      omega
    · omega

namespace CooldownEnv

variable (env : CooldownEnv)

def winsOf (blocks : List CBlock) : List (Int × Address × Int) := notedBy (fun block _ => env.winOf block) blocks

def registrationsOf (blocks : List CBlock) : List (Int × Address) := notedBy env.registrationOf blocks

/-- The win stands in the window of the chain: none of the chain is a whole window above it. -/
def InWindow (blocks : List CBlock) (height : Int) (win : Address × Int) : Prop :=
  (height, win) ∈ env.winsOf blocks ∧ ∀ later ∈ env.winsOf blocks, later.1 < height + env.cooldown.activeWindow

end CooldownEnv

def SeatsOf (env : CooldownEnv) (blocks : List CBlock) (seats : List (Seat WinEntry)) : Prop :=
  seats.map (fun seat => seat.entry.map fun win => (win.winner, win.timestamp)) = blocks.map env.winOf

namespace SeatsOf

variable {env : CooldownEnv} {blocks : List CBlock} {seats : List (Seat WinEntry)}

section

variable (seatsOf : SeatsOf env blocks seats)

include seatsOf

lemma length_eq : seats.length = blocks.length := by
  simpa using congrArg length seatsOf

lemma push (block : CBlock) (copies : Nat) :
    SeatsOf env (block :: blocks) (push seats ((env.winOf block).map fun win => ⟨win.1, win.2, copies⟩)) := by
  cases won : env.winOf block with
  | none => simpa [SeatsOf, SlidingWindow.push, won] using seatsOf
  | some win => simpa [SeatsOf, SlidingWindow.push, won, Function.comp_def] using seatsOf

lemma mem_winsOf_iff (stacked : Stacked seats) {height : Int} {win : Address × Int} :
    (height, win) ∈ env.winsOf blocks ↔
      ∃ seat ∈ seats, ∃ found, seat.entry = some found ∧ seat.height = height ∧
      (found.winner, found.timestamp) = win := by
  induction seats generalizing blocks with
  | nil =>
    have none : blocks = [] := eq_nil_of_length_eq_zero seatsOf.length_eq.symm
    simp [none, winsOf, notedBy]
  | cons top rest ih =>
    obtain ⟨isHeight, -, -, stackedRest⟩ := stacked
    cases blocks with
    | nil => cases seatsOf.length_eq
    | cons block below =>
      obtain ⟨isTop, isRest⟩ := cons.inj seatsOf
      have same : SeatsOf env below rest := isRest
      unfold winsOf at ih ⊢
      rw [mem_notedBy_cons, ih same stackedRest, ← isTop, ← same.length_eq]
      simp only [map_eq_some_iff, mem_cons, exists_eq_or_imp]
      rw [or_comm]
      refine or_congr_left ⟨?_, ?_⟩
      · rintro ⟨atTop, found, isEntry, isWin⟩
        exact ⟨found, isEntry, isHeight.trans atTop.symm, isWin⟩
      · rintro ⟨found, isEntry, atTop, isWin⟩
        exact ⟨atTop.symm.trans isHeight, found, isEntry, isWin⟩

end

end SeatsOf

namespace CooldownEnv

variable {env : CooldownEnv} {blocks : List CBlock} {tracker : CCooldownTracker}

/-- `OnRegistrationConnected` for a block that registers a miner. -/
def register (env : CooldownEnv) (tracker : CCooldownTracker) (block : CBlock) (height : Int) : CCooldownTracker :=
  match env.registrationOf block height with
  | none => tracker
  | some mikId => tracker.onRegistrationConnected height mikId

lemma connectCallbacks_eq (block : CBlock) (height : Int) :
    env.connectCallbacks tracker block height = env.recordBlock (env.register tracker block height) block height := rfl

lemma heightToRegistration_recordBlock (block : CBlock) (height : Int) :
    (env.recordBlock tracker block height).heightToRegistration = tracker.heightToRegistration := by
  unfold recordBlock
  split
  · rfl
  · refine (sameLifetime_onBlockConnected tracker _ _ _).registrations.trans ?_
    unfold recordWin
    split <;> rfl

lemma mem_registrations_connect
    (known : ∀ item, item ∈ tracker.heightToRegistration ↔ item ∈ env.registrationsOf blocks)
    (block : CBlock) (item : Int × Address) :
    item ∈ (env.connectCallbacks tracker block blocks.length).heightToRegistration ↔
    item ∈ env.registrationsOf (block :: blocks) := by
  rw [connectCallbacks_eq, heightToRegistration_recordBlock, registrationsOf, mem_notedBy_cons, register]
  cases registers : env.registrationOf block blocks.length with
  | none =>
    rw [known, registrationsOf]
    simp
  | some mikId =>
    have apart (inside : item ∈ notedBy env.registrationOf blocks) : item.1 ≠ blocks.length :=
      ne_of_lt (lt_of_mem_notedBy inside)
    unfold onRegistrationConnected
    rw [mem_insert, known]
    constructor
    · rintro (rfl | ⟨-, inside⟩)
      · exact .inr ⟨rfl, rfl⟩
      · exact .inl inside
    · rintro (inside | ⟨isHeight, isMik⟩)
      · exact .inr ⟨apart inside, inside⟩
      · exact .inl (Prod.ext isHeight (some.inj isMik).symm)

end CooldownEnv

variable {seats : List (Seat WinEntry)} {tracker : CCooldownTracker}

lemma Tracks.register {params : CooldownParams}
    (tracks : Tracks params seats tracker) (env : CooldownEnv) (block : CBlock) (height : Int) :
    Tracks params seats (env.register tracker block height) := by
  unfold CooldownEnv.register
  split
  · exact tracks
  · obtain ⟨reflects, caches⟩ := tracks
    exact ⟨⟨reflects.sameParams, reflects.stacked, reflects.recorded,
      ⟨reflects.coherent.nonneg, reflects.coherent.timed, reflects.coherent.lastWin, reflects.coherent.lastTime⟩,
      reflects.winners, reflects.timestamps, ⟨reflects.lifetime.counts, reflects.lifetime.recorded⟩⟩,
        caches.long, caches.short⟩

variable {env : CooldownEnv}

lemma Tracks.recordBlock
    (tracks : Tracks env.cooldown seats tracker) (timed : ∀ win, env.winOf block = some win → 0 < win.2) :
    Tracks env.cooldown (push seats ((env.winOf block).map fun win => ⟨win.1, win.2, 1⟩))
      (env.recordBlock tracker block seats.length) := by
  unfold CooldownEnv.recordBlock
  cases won : env.winOf block with
  | none => exact tracks.pass
  | some win => exact .of_recorded (tracks.reflects.first (timed win won) win.1)

lemma Tracks.recordBlock_again {base : CCooldownTracker}
    {win : Address × Int} (reflects : ReflectsSeats env.cooldown seats base)
    (won : env.winOf block = some win) (positive : 0 < win.2)
    (tracks : Tracks env.cooldown (push seats (some ⟨win.1, win.2, 1⟩)) tracker) :
    Tracks env.cooldown (push seats (some ⟨win.1, win.2, 2⟩)) (env.recordBlock tracker block seats.length) := by
  unfold CooldownEnv.recordBlock
  rw [won]
  exact .of_recorded (reflects.again positive tracks.reflects)

namespace TrackedChain

variable {env : CooldownEnv} {chain : TrackedChain}

structure Sound (env : CooldownEnv) (chain : TrackedChain) : Prop where
  tracks : Tracks env.cooldown chain.seats chain.tracker
  seatsOf : SeatsOf env chain.blocks chain.seats
  settled : EvictedByChain env.cooldown.activeWindow chain.seats
  registrations : ∀ item, item ∈ chain.tracker.heightToRegistration ↔ item ∈ env.registrationsOf chain.blocks

lemma sound_empty (env : CooldownEnv) : Sound env (empty env) :=
  ⟨.new env.cooldown, rfl, by simp [EvictedByChain, empty], by simp [empty, registrationsOf, notedBy]⟩

lemma registrations_asks (tracker : CCooldownTracker) (queries : List CooldownQuery) :
    (queries.foldl ask tracker).heightToRegistration = tracker.heightToRegistration := by
  have same := congrArg heightToRegistration (uncached_asks tracker queries)
  exact same

lemma Sound.asks (sound : Sound env chain) (queries : List CooldownQuery) :
    Sound env { chain with tracker := queries.foldl ask chain.tracker } := by
  refine ⟨sound.tracks.asks queries, sound.seatsOf, sound.settled, fun item => ?_⟩
  rw [registrations_asks]
  exact sound.registrations item

variable {block : CBlock}

section

variable (sound : Sound env chain)

include sound

/-- The block is connected; the tracker may have seen it before its last checks. -/
lemma Sound.connected (attempt : ConnectAttempt) (timed : ∀ win, env.winOf block = some win → 0 < win.2) :
    Tracks env.cooldown
      (push chain.seats ((env.winOf block).map fun win =>
        ⟨win.1, win.2, if recordsEarly env block chain.seats.length attempt then 2 else 1⟩))
      (env.connectCallbacks (attempt.queries.foldl ask
          (if recordsEarly env block chain.seats.length attempt then
            env.recordBlock chain.tracker block chain.seats.length else chain.tracker)) block chain.seats.length) := by
  by_cases early : recordsEarly env block chain.seats.length attempt = true
  · obtain ⟨win, won⟩ := isSome_iff_exists.mp (by simpa using (Bool.and_eq_true_iff.mp early).2)
    have seen := (sound.tracks.recordBlock timed).asks attempt.queries
    simp only [early, if_true, won, map_some] at seen ⊢
    exact Tracks.recordBlock_again sound.tracks.reflects won (timed win won) (seen.register env block _)
  · simp only [early, Bool.false_eq_true, if_false]
    exact ((sound.tracks.asks attempt.queries).register env block _).recordBlock timed

lemma Sound.connectTip {attempt : ConnectAttempt}
    (clear : chain.Clear env (.connectTip block attempt)) : Sound env (chain.connectTip env block attempt).2 := by
  obtain ⟨finishes, timed⟩ := clear
  have height : (chain.blocks.length : Int) = chain.seats.length := by rw [sound.seatsOf.length_eq]
  unfold TrackedChain.connectTip
  split
  case isTrue => exact sound
  case isFalse passed =>
    have reached : attempt.skipValidation = true ∨ attempt.identified = true := by
      cases skips : attempt.skipValidation <;> cases identified : attempt.identified <;> simp_all
    split
    case isTrue done =>
      have tracks := sound.connected attempt timed
      rw [← height] at tracks
      refine ⟨tracks, sound.seatsOf.push block _, sound.settled.push sound.tracks.reflects.stacked _, ?_⟩
      refine mem_registrations_connect (fun item => ?_) block
      rw [registrations_asks, ← sound.registrations]
      split
      · rw [heightToRegistration_recordBlock]
      · rfl
    case isFalse fails =>
      have late : recordsEarly env block chain.blocks.length attempt = false := by
        cases early : recordsEarly env block chain.blocks.length attempt with
        | false => rfl
        | true => exact absurd (finishes reached early) fails
      simp only [late, Bool.false_eq_true, if_false]
      exact sound.asks attempt.queries

lemma Sound.disconnectTip (clear : chain.Clear env .disconnectTip) : Sound env chain.disconnectTip := by
  obtain ⟨blocks, tracker, seats⟩ := chain
  obtain ⟨tracks, seatsOf, settled, registrations⟩ := sound
  obtain ⟨recordedToo, once, settledBelow⟩ := clear
  cases blocks with
  | nil => exact ⟨tracks, seatsOf, settled, registrations⟩
  | cons block below =>
    cases seats with
    | nil => cases seatsOf.length_eq
    | cons top rest =>
      obtain ⟨isTop, isRest⟩ := cons.inj seatsOf
      have wins : (top.entry.map fun win => (win.winner, win.timestamp)) = env.winOf block := isTop
      have seatsBelow : SeatsOf env below rest := isRest
      have height : (below.length : Int) = rest.length := by rw [seatsBelow.length_eq]
      have noted := fun item : Int × Address => registrations item
      simp only [registrationsOf, mem_notedBy_cons] at noted
      unfold TrackedChain.disconnectTip disconnectCallbacks
      dsimp only
      cases isEntry : top.entry with
      | none =>
        have unwon : env.winOf block = none := by rw [← wins, isEntry]; rfl
        have unregistered : env.registrationOf block below.length = none := by
          have silent := recordedToo block rfl
          rw [unwon] at silent
          simpa using silent
        have unchanged : (if block.toCBlockHeader.isVDFBlock = true then
            tracker.onBlockDisconnected below.length else tracker) = tracker := by
          rw [height, (tracks.reflects.drop isEntry).1, ite_self]
        rw [unchanged]
        refine ⟨tracks.drop isEntry, seatsBelow, settledBelow, fun item => ?_⟩
        simpa [unregistered, registrationsOf] using noted item
      | some win =>
        have won : env.winOf block = some (win.winner, win.timestamp) := by rw [← wins, isEntry]; rfl
        have isVDF : block.toCBlockHeader.isVDFBlock = true := by
          by_contra other
          simp [winOf, other] at won
        have single : win.copies = 1 := once top rfl win isEntry
        rw [if_pos isVDF]
        have withdrawn := tracks.withdraw isEntry single
        have fields := (tracks.reflects.withdraw isEntry single).1
        rw [← height] at withdrawn fields
        refine ⟨withdrawn, seatsBelow, settledBelow, fun item => ?_⟩
        rw [fields.registrations, mem_erase, noted]
        constructor
        · rintro ⟨apart, inside | ⟨isHeight, -⟩⟩
          · exact inside
          · exact absurd isHeight apart
        · exact fun inside => ⟨ne_of_lt (lt_of_mem_notedBy inside), .inl inside⟩

lemma Sound.step {op : TrackerOp} (clear : chain.Clear env op) : Sound env (chain.step env op) := by
  cases op with
  | connectTip block attempt => exact sound.connectTip clear
  | disconnectTip => exact sound.disconnectTip clear
  | ask query => exact sound.asks [query]

end

lemma Run.sound (run : Run env chain) : Sound env chain := by
  induction run with
  | start => exact sound_empty env
  | next _ op clear ih => exact ih.step clear

lemma run_replay {blocks : List CBlock} (timed : ∀ block ∈ blocks, ∀ win, env.winOf block = some win → 0 < win.2) :
    ∃ seats, Run env ⟨blocks, env.replay blocks, seats⟩ := by
  induction blocks with
  | nil => exact ⟨[], .start⟩
  | cons block below ih =>
    obtain ⟨seats, run⟩ := ih fun other inside => timed other (mem_cons_of_mem _ inside)
    refine ⟨_, run.next (.connectTip block ⟨true, false, [], true⟩) ⟨fun _ early => ?_, timed block mem_cons_self⟩⟩
    rfl

lemma Sound.timed (sound : Sound env chain) (inside : block ∈ chain.blocks) {win : Address × Int}
    (won : env.winOf block = some win) : 0 < win.2 := by
  have listed : env.winOf block ∈ chain.blocks.map env.winOf := mem_map_of_mem inside
  rw [← sound.seatsOf] at listed
  obtain ⟨seat, member, same⟩ := mem_map.mp listed
  obtain ⟨found, isEntry, isWin⟩ := map_eq_some_iff.mp (same.trans won)
  exact isWin ▸ (sound.tracks.reflects.recorded seat member found isEntry).2.2

variable {height : Int}

section

variable (sound : Sound env chain)

include sound

lemma Sound.kept_iff {win : Address × Int} :
    (∃ found, (height, found) ∈ kept env.cooldown.activeWindow chain.seats ∧ (found.winner, found.timestamp) = win) ↔
      env.InWindow chain.blocks height win := by
  have stacked := sound.tracks.reflects.stacked
  unfold CooldownEnv.InWindow
  rw [sound.seatsOf.mem_winsOf_iff stacked]
  constructor
  · rintro ⟨found, stays, rfl⟩
    obtain ⟨seat, member, young, isEntry, isHeight⟩ := mem_kept_iff.mp stays
    refine ⟨⟨seat, member, found, isEntry, isHeight, rfl⟩, fun later isWin => not_le.mp fun far => ?_⟩
    obtain ⟨upper, isUpper, other, otherEntry, atUpper, -⟩ := (sound.seatsOf.mem_winsOf_iff stacked).mp isWin
    have out : PushedOut env.cooldown.activeWindow chain.seats seat :=
      ⟨upper, isUpper, by simp [otherEntry], by omega⟩
    have gone := evicted_of_pushedOut stacked sound.tracks.reflects.recorded member isEntry out
    rw [young] at gone
    cases gone
  · rintro ⟨⟨seat, member, found, isEntry, isHeight, rfl⟩, newest⟩
    refine ⟨found, mem_kept_iff.mpr ⟨seat, member, ?_, isEntry, isHeight⟩, rfl⟩
    by_contra gone
    obtain ⟨upper, isUpper, hasEntry, far⟩ := sound.settled seat member (by simp [isEntry]) (by simpa using gone)
    obtain ⟨other, otherEntry⟩ := ne_none_iff_exists'.mp hasEntry
    have near := newest (upper.height, other.winner, other.timestamp)
      ((sound.seatsOf.mem_winsOf_iff stacked).mpr ⟨upper, isUpper, other, otherEntry, rfl, rfl⟩)
    omega

lemma Sound.winners_iff {address : Address} :
    (height, address) ∈ chain.tracker.heightToWinner ↔
    ∃ timestamp, env.InWindow chain.blocks height (address, timestamp) := by
  simp only [sound.tracks.reflects.winners, ← sound.kept_iff, Prod.mk.injEq]
  exact ⟨fun ⟨found, stays, isWinner⟩ => ⟨_, found, stays, isWinner, rfl⟩,
    fun ⟨_, found, stays, isWinner, _⟩ => ⟨found, stays, isWinner⟩⟩

lemma Sound.timestamps_iff {timestamp : Int} :
    (height, timestamp) ∈ chain.tracker.heightToTimestamp ↔
    ∃ address, env.InWindow chain.blocks height (address, timestamp) := by
  simp only [sound.tracks.reflects.timestamps, ← sound.kept_iff, Prod.mk.injEq]
  exact ⟨fun ⟨found, stays, isTime⟩ => ⟨_, found, stays, rfl, isTime⟩,
    fun ⟨_, found, stays, _, isTime⟩ => ⟨found, stays, isTime⟩⟩

lemma Sound.first_height (address : Address) : (winHeights address chain.seats).head? =
    ((env.winsOf chain.blocks).find? fun item => decide (item.2.1 = address)).map Prod.fst := by
  obtain ⟨blocks, tracker, seats⟩ := chain
  have stacked := sound.tracks.reflects.stacked
  have recorded := sound.tracks.reflects.recorded
  have seatsOf := sound.seatsOf
  clear sound
  induction seats generalizing blocks with
  | nil =>
    have none : blocks = [] := eq_nil_of_length_eq_zero seatsOf.length_eq.symm
    simp [none, winHeights, winsOf, notedBy]
  | cons top rest ih =>
    cases blocks with
    | nil => cases seatsOf.length_eq
    | cons block below =>
      obtain ⟨isTop, isRest⟩ := cons.inj seatsOf
      have wins : (top.entry.map fun win => (win.winner, win.timestamp)) = env.winOf block := isTop
      have seatsBelow : SeatsOf env below rest := isRest
      have lower := ih below stacked.2.2.2 recorded.tail seatsBelow
      unfold winsOf at lower ⊢
      rw [winHeights, notedBy, head?_append, find?_append, lower, ← wins]
      cases isEntry : top.entry with
      | none => simp
      | some win =>
        have entered := (recorded top mem_cons_self win isEntry).2.1
        by_cases isWinner : win.winner = address
        · rw [map_or]
          simp [isWinner, head?_replicate, Nat.ne_of_gt entered, stacked.1, seatsBelow.length_eq]
        · simp [isWinner]

end

end TrackedChain

structure CCooldownTracker.SameAnswers (height : Int) (first second : CCooldownTracker) : Prop where
  isInCooldown : ∀ addr currentTimestamp, (first.isInCooldown addr height currentTimestamp).1 =
    (second.isInCooldown addr height currentTimestamp).1
  getEffectiveCooldown : (first.getEffectiveCooldown height).1 = (second.getEffectiveCooldown height).1
  getBlockCountInWindow : ∀ addr window, first.getBlockCountInWindow addr height window =
    second.getBlockCountInWindow addr height window
  getRegistrationCount : ∀ window, first.getRegistrationCount height window = second.getRegistrationCount height window
  getLifetimeMinerCount : first.getLifetimeMinerCount = second.getLifetimeMinerCount
  getLifetimeMinerCountAtHeight : first.getLifetimeMinerCountAtHeight height =
    second.getLifetimeMinerCountAtHeight height

namespace TrackedChain

variable {env : CooldownEnv} {chain other : TrackedChain}

lemma Sound.sameAnswers (one : Sound env chain) (two : Sound env other) (same : chain.blocks = other.blocks) :
    CCooldownTracker.SameAnswers chain.blocks.length chain.tracker other.tracker := by
  have winners : chain.tracker.heightToWinner = other.tracker.heightToWinner :=
    ext_mem fun ⟨height, address⟩ => by rw [one.winners_iff, two.winners_iff, same]
  have timestamps : chain.tracker.heightToTimestamp = other.tracker.heightToTimestamp :=
    ext_mem fun ⟨height, timestamp⟩ => by rw [one.timestamps_iff, two.timestamps_iff, same]
  have lastWin : chain.tracker.lastWinHeight = other.tracker.lastWinHeight :=
    ext_mem fun ⟨address, height⟩ => by
      rw [one.tracks.reflects.coherent.lastWin, two.tracks.reflects.coherent.lastWin, winners]
  have lastTime : chain.tracker.lastWinTimestamp = other.tracker.lastWinTimestamp :=
    ext_mem fun ⟨address, timestamp⟩ => by
      rw [one.tracks.reflects.coherent.lastTime, two.tracks.reflects.coherent.lastTime, lastWin, timestamps]
  have registrations : chain.tracker.heightToRegistration = other.tracker.heightToRegistration :=
    ext_mem fun item => by rw [one.registrations, two.registrations, same]
  have params : chain.tracker.params = other.tracker.params :=
    one.tracks.reflects.sameParams.trans two.tracks.reflects.sameParams.symm
  have first : ∀ address, (winHeights address chain.seats).head? = (winHeights address other.seats).head? := by
    intro address
    rw [one.first_height, two.first_height, same]
  have miners : ∀ address, winHeights address chain.seats ≠ [] ↔ winHeights address other.seats ≠ [] := by
    intro address
    rw [ne_eq, ne_eq, ← head?_eq_none_iff, ← head?_eq_none_iff, first]
  have effective : (chain.tracker.computeEffectiveCooldown chain.blocks.length).1 =
      (other.tracker.computeEffectiveCooldown chain.blocks.length).1 := by
    have here := one.tracks.effective_eq
    have there := two.tracks.effective_eq
    rw [one.seatsOf.length_eq] at here
    rw [two.seatsOf.length_eq, ← same] at there
    rw [here, there, winners]
  constructor
  · intro addr currentTimestamp
    unfold isInCooldown
    rw [lastWin, lastTime, params]
    split
    · rfl
    · dsimp only
      rw [effective]
  · exact effective
  · intro addr window
    unfold getBlockCountInWindow
    rw [winners]
  · intro window
    unfold getRegistrationCount
    rw [registrations]
  · have keys : chain.tracker.lifetimeBlockCount.mapValues (fun _ => ()) =
      other.tracker.lifetimeBlockCount.mapValues (fun _ => ()) := by
      refine ext_mem fun ⟨address, _⟩ => ?_
      simp only [mem_mapValues, one.tracks.reflects.lifetime.counts, two.tracks.reflects.lifetime.counts, miners]
      simp
    have lengths := congrArg (fun map => map.entries.length) keys
    simp only [mapValues, length_map] at lengths
    unfold getLifetimeMinerCount
    rw [lengths]
  · have heads : chain.tracker.mikHeights.mapValues head? = other.tracker.mikHeights.mapValues head? := by
      refine ext_mem fun ⟨address, _⟩ => ?_
      simp only [mem_mapValues, one.tracks.reflects.lifetime.recorded, two.tracks.reflects.lifetime.recorded, miners]
      simp [first]
    have counts := congrArg (fun map => map.entries.countP fun entry => entry.2.any fun first =>
      decide (first ≤ (chain.blocks.length : Int))) heads
    simp only [mapValues, countP_map] at counts
    exact congrArg Nat.cast counts

/-- Along every clear run the tracker answers for the next height as one that is replayed over the chain. -/
theorem answers_of_run (run : Run env chain) :
    CCooldownTracker.SameAnswers chain.blocks.length chain.tracker (env.replay chain.blocks) := by
  obtain ⟨seats, replayed⟩ := run_replay fun block inside win won => run.sound.timed inside won
  exact run.sound.sameAnswers replayed.sound rfl

def dilvCooldown : CooldownParams where
  activeWindow := 200
  shortWindow := 0
  stabilizationHeight := 0
  targetBlockTime := 45
  timeBasedExpiryRetiredHeight := 44233
  timeDecayActivationHeight := 44250
  timeDecaySeconds := 60

def dilvTracking : CooldownEnv := ⟨.ofTable [], dilvCooldown, 0, 44233⟩

def paidTo (payee : UInt8) : CTransaction :=
  ⟨1, [⟨⟨.null, 0xFFFFFFFF⟩, [1, 1], 0xFFFFFFFF⟩],
    [⟨10000000000, [0x76, 0xa9, 0x14] ++ List.replicate 20 payee ++ [0x88, 0xac]⟩], 0⟩

def vdfBlock (payee : UInt8) (nTime : UInt32) : CBlock where
  nVersion := 4
  hashPrevBlock := .null
  hashMerkleRoot := .null
  nTime := nTime
  nBits := 0
  nNonce := 0
  vdfOutput := .null
  vdfProofHash := .null
  vtx := serializeCompactSize 1 ++ (paidTo payee).serialize

def payeeAddress (payee : UInt8) : Address := ⟨List.replicate 20 payee, by simp⟩

/-- A call that skips the checks for identities, as reorganisations make it. -/
def reconnection : ConnectAttempt := ⟨true, false, [.effectiveCooldown 0], true⟩

def download : ConnectAttempt := ⟨false, true, [], true⟩

theorem answers_after_reorg : Run dilvTracking
    ((((empty dilvTracking).step dilvTracking (.connectTip (vdfBlock 7 1775000000) reconnection)).step
      dilvTracking .disconnectTip).step
      dilvTracking (.connectTip (vdfBlock 7 1775000000) reconnection)) ∧
    CCooldownTracker.SameAnswers 1
      ((((empty dilvTracking).step dilvTracking (.connectTip (vdfBlock 7 1775000000) reconnection)).step dilvTracking
        .disconnectTip).step dilvTracking (.connectTip (vdfBlock 7 1775000000) reconnection)).tracker
      (dilvTracking.replay [vdfBlock 7 1775000000]) := by
  have connects (chain : TrackedChain) :
      chain.Clear dilvTracking (.connectTip (vdfBlock 7 1775000000) reconnection) := by
    refine ⟨fun _ _ => rfl, fun win won => ?_⟩
    cases won
    decide
  have connected : Run dilvTracking
      ((empty dilvTracking).step dilvTracking (.connectTip (vdfBlock 7 1775000000) reconnection)) :=
    .next .start _ (connects _)
  have disconnected := connected.next .disconnectTip ⟨?_, ?_, ?_⟩
  · have run := disconnected.next _ (connects _)
    exact ⟨run, answers_of_run run⟩
  · rintro block ⟨⟩ -
    rfl
  · rintro seat isSeat win isWin
    cases isSeat
    cases isWin
    rfl
  · rintro seat ⟨⟩

/-- After the download of a block below the assume-valid height and its disconnect, the miner is still counted. And
a window that has moved on with a block does not move back with it. -/
theorem answers_differ_after_disconnect :
    ((((empty dilvTracking).step dilvTracking (.connectTip (vdfBlock 7 1775000000) download)).step dilvTracking
        .disconnectTip).blocks = [] ∧
      (((empty dilvTracking).step dilvTracking (.connectTip (vdfBlock 7 1775000000) download)).step dilvTracking
        .disconnectTip).tracker.getLifetimeMinerCount = 1 ∧
      (dilvTracking.replay []).getLifetimeMinerCount = 0) ∧
    let narrow : CooldownEnv := { dilvTracking with cooldown := { dilvCooldown with activeWindow := 1 } }
    ((((empty narrow).step narrow (.connectTip (vdfBlock 7 1775000000) reconnection)).step narrow
        (.connectTip (vdfBlock 8 1775000045) reconnection)).step narrow .disconnectTip).blocks =
          [vdfBlock 7 1775000000] ∧
      ((((empty narrow).step narrow (.connectTip (vdfBlock 7 1775000000) reconnection)).step narrow
        (.connectTip (vdfBlock 8 1775000045) reconnection)).step narrow .disconnectTip).tracker.getBlockCountInWindow
          (payeeAddress 7) 1 480 = 0 ∧
      (narrow.replay [vdfBlock 7 1775000000]).getBlockCountInWindow (payeeAddress 7) 1 480 = 1 := by
  refine ⟨⟨rfl, ?_, rfl⟩, rfl, ?_, ?_⟩ <;> decide

end TrackedChain

end Dilithion
