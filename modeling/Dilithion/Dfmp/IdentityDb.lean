import Dilithion.Lib.SortedMap
import Dilithion.Dfmp.Penalty

/-! The database of mining identities. For every identity it holds the height it was first seen at, its
public key once registered, and the height it last mined at; each of them has a cache of its own. The
connect callback writes all three, and `DisconnectTip` takes the first two back for an identity that
was first seen in the block. -/

namespace Dilithion.DFMP

open Lib

structure CIdentityDB where
  firstSeen : CachedStore Identity Int
  mikPubkeys : CachedStore Identity Bytes
  lastMined : CachedStore Identity Int

namespace CIdentityDB

def maxCacheSize : Nat := 10000

def maxMIKCacheSize : Nat := 1000

def empty : CIdentityDB := ⟨.empty, .empty, .empty⟩

variable (H : HashFunctions) (db : CIdentityDB) (identity : Identity)

def getFirstSeen : Int × CIdentityDB :=
  let (found, firstSeen) := db.firstSeen.get (some maxCacheSize) identity
  (found.getD (-1), { db with firstSeen })

def setFirstSeen (height : Int) : Bool × CIdentityDB :=
  let (written, firstSeen) := db.firstSeen.add (some maxCacheSize) identity height
  (written, { db with firstSeen })

def existsIdentity : Bool × CIdentityDB :=
  let (firstSeen, db) := db.getFirstSeen identity
  (decide (0 ≤ firstSeen), db)

def setMIKPubKey (pubkey : Bytes) : Bool × CIdentityDB :=
  if pubkey.length ≠ mikPubkeySize then (false, db)
  else if deriveIdentityFromMIK H pubkey ≠ identity then (false, db)
  else
    let (written, mikPubkeys) := db.mikPubkeys.add (some maxMIKCacheSize) identity pubkey
    (written, { db with mikPubkeys })

def getMIKPubKey : Option Bytes × CIdentityDB :=
  let (found, mikPubkeys) := db.mikPubkeys.get (some maxMIKCacheSize) identity
  (found, { db with mikPubkeys })

def hasMIKPubKey : Bool := db.mikPubkeys.has identity

def removeMIKPubKey : Bool × CIdentityDB :=
  let (removed, mikPubkeys) := db.mikPubkeys.remove identity
  (removed, { db with mikPubkeys })

def removeFirstSeen : Bool × CIdentityDB :=
  let (removed, firstSeen) := db.firstSeen.remove identity
  (removed, { db with firstSeen })

def setLastMined (height : Int) : CIdentityDB :=
  { db with lastMined := db.lastMined.put identity height }

def getLastMined : Int × CIdentityDB :=
  let (found, lastMined) := db.lastMined.get none identity
  (found.getD (-1), { db with lastMined })

def reopen (db : CIdentityDB) : CIdentityDB := ⟨db.firstSeen.reopen, db.mikPubkeys.reopen, db.lastMined.reopen⟩

end CIdentityDB

def mikDataIn (H : HashFunctions) (block : CBlock) : Option CMIKScriptData :=
  match CBlockValidator.deserializeBlockTransactions block with
  | .error _ => none
  | .ok [] => none
  | .ok (coinbaseTx :: _) => do
    let txin ← coinbaseTx.vin.head?
    let mikData ← parseMIKFromScriptSig H txin.scriptSig
    if mikData.identity.isNull then none else some mikData

def Callbacks.mikDataAt (callbacks : Callbacks) (block : CBlock) (height : Int) : Option CMIKScriptData :=
  if callbacks.dfmpActivationHeight ≤ height ∧ ¬ block.vtx.isEmpty then mikDataIn callbacks.hashes block else none

namespace CIdentityDB

variable (H : HashFunctions) (callbacks : Callbacks) (db : CIdentityDB) (block : CBlock) (height : Int)

def noteFirstSeen (identity : Identity) (height : Int) : CIdentityDB :=
  let (known, db) := db.existsIdentity identity
  if known then db else (db.setFirstSeen identity height).2

def noteRegistration (mikData : CMIKScriptData) : CIdentityDB :=
  if mikData.isRegistration && !db.hasMIKPubKey mikData.identity then
    (db.setMIKPubKey H mikData.identity mikData.pubkey).2
  else db

def onBlockConnected : CIdentityDB :=
  match callbacks.mikDataAt block height with
  | none => db
  | some mikData =>
    let seen := db.noteFirstSeen mikData.identity height
    let registered := seen.noteRegistration callbacks.hashes mikData
    registered.setLastMined mikData.identity height

/-- The part of `DisconnectTip` that undoes the database. -/
def undoBlock : CIdentityDB :=
  match mikDataIn H block with
  | none => db
  | some mikData =>
    let (firstSeen, db) := db.getFirstSeen mikData.identity
    if firstSeen = height then ((db.removeMIKPubKey mikData.identity).2.removeFirstSeen mikData.identity).2 else db

def replay (callbacks : Callbacks) : List CBlock → CIdentityDB
  | [] => .empty
  | block :: below => (replay callbacks below).onBlockConnected callbacks block below.length

end CIdentityDB

structure ExpirationRules where
  mikExpirationActivationHeight : Int := 999999999
  mikExpirationThreshold : Int := 5760

def firstTransaction (vtx : Bytes) : Option CTransaction :=
  match vtx with
  | [] => none
  | first :: rest =>
    let data := if first < 253 then some rest else if first = 253 ∧ 3 ≤ vtx.length then some (vtx.drop 3) else none
    data.bind fun data =>
      match CTransaction.deserialize.run data with
      | .ok (tx, _) => some tx
      | .error _ => none

def checkMIKExpiration (rules : ExpirationRules) (H : HashFunctions) (db : CIdentityDB)
    (block : CBlock) (height : Int) :
    Option String × CIdentityDB :=
  if height < rules.mikExpirationActivationHeight then (none, db)
  else
    match (firstTransaction block.vtx).bind fun coinbase => coinbase.vin.head?.bind fun txin =>
        parseMIKFromScriptSig H txin.scriptSig with
    | none => (none, db)
    | some mikData =>
      if mikData.isRegistration then (none, db)
      else
        let (lastMined, db) := db.getLastMined mikData.identity
        let (firstSeen, db) := if lastMined < 0 then db.getFirstSeen mikData.identity else (lastMined, db)
        if firstSeen < 0 then
          (some ("CheckMIKExpiration: unknown identity using reference block at height " ++ toString height), db)
        else if rules.mikExpirationThreshold < height - firstSeen then
          (some ("CheckMIKExpiration: MIK expired at height " ++ toString height ++
            " (last mined at " ++ toString firstSeen ++
            ", dormant " ++ toString (height - firstSeen) ++ " blocks, threshold " ++
              toString rules.mikExpirationThreshold ++
            "). Must re-register with type 0x01 and fresh attestations."), db)
        else (none, db)

structure IdentityRecords where
  firstSeen : SortedMap Identity Int
  mikPubkeys : SortedMap Identity Bytes
  lastMined : SortedMap Identity Int

def CIdentityDB.records (db : CIdentityDB) : IdentityRecords :=
  ⟨db.firstSeen.stored, db.mikPubkeys.stored, db.lastMined.stored⟩

namespace IdentityRecords

variable (records : IdentityRecords)

def register (H : HashFunctions) (mikData : CMIKScriptData) : SortedMap Identity Bytes :=
  if mikData.isRegistration = true ∧ records.mikPubkeys.find mikData.identity = none ∧
      mikData.pubkey.length = mikPubkeySize ∧
      deriveIdentityFromMIK H mikData.pubkey = mikData.identity then
    records.mikPubkeys.insert mikData.identity mikData.pubkey
  else records.mikPubkeys

def connect (H : HashFunctions) (mikData : CMIKScriptData) (height : Int) : IdentityRecords where
  firstSeen := if (records.firstSeen.find mikData.identity).isSome then records.firstSeen
    else records.firstSeen.insert mikData.identity height
  mikPubkeys := records.register H mikData
  lastMined := records.lastMined.insert mikData.identity height

def disconnect (identity : Identity) (height : Int) : IdentityRecords :=
  if records.firstSeen.find identity = some height then
    { records with firstSeen := records.firstSeen.erase identity, mikPubkeys := records.mikPubkeys.erase identity }
  else records

end IdentityRecords

namespace CIdentityDB

variable (db : CIdentityDB) (identity : Identity)

@[simp] lemma getFirstSeen_fst : (db.getFirstSeen identity).1 = (db.records.firstSeen.find identity).getD (-1) := by
  simp [getFirstSeen, records]

@[simp] lemma records_getFirstSeen : (db.getFirstSeen identity).2.records = db.records := by
  simp [getFirstSeen, records]

@[simp] lemma getMIKPubKey_fst : (db.getMIKPubKey identity).1 = db.records.mikPubkeys.find identity := by
  simp [getMIKPubKey, records]

@[simp] lemma records_getMIKPubKey : (db.getMIKPubKey identity).2.records = db.records := by
  simp [getMIKPubKey, records]

@[simp] lemma getLastMined_fst : (db.getLastMined identity).1 = (db.records.lastMined.find identity).getD (-1) := by
  simp [getLastMined, records]

@[simp] lemma records_getLastMined : (db.getLastMined identity).2.records = db.records := by
  simp [getLastMined, records]

lemma records_noteFirstSeen (height : Int) : (db.noteFirstSeen identity height).records =
    { db.records with firstSeen := if (db.records.firstSeen.find identity).isSome then db.records.firstSeen
        else db.records.firstSeen.insert identity height } := by
  unfold noteFirstSeen existsIdentity
  dsimp only
  split
  case isTrue known =>
    cases found : db.records.firstSeen.find identity with
    | none => simp [found] at known
    | some height => simp
  case isFalse =>
    have same := records_getFirstSeen db identity
    unfold setFirstSeen
    unfold records at same ⊢
    simp only [CachedStore.stored_add, IdentityRecords.mk.injEq] at same ⊢
    simp [same]

lemma records_noteRegistration (H : HashFunctions) (mikData : CMIKScriptData) :
    (db.noteRegistration H mikData).records = { db.records with mikPubkeys := db.records.register H mikData } := by
  unfold noteRegistration IdentityRecords.register hasMIKPubKey setMIKPubKey records
  rw [CachedStore.has_eq]
  cases mikData.isRegistration with
  | false => simp
  | true =>
    cases found : db.mikPubkeys.stored.find mikData.identity with
    | some known => simp
    | none =>
      by_cases size : mikData.pubkey.length = mikPubkeySize
      · by_cases derived : deriveIdentityFromMIK H mikData.pubkey = mikData.identity
        · simp [size, derived, found, CachedStore.stored_add]
        · simp [size, derived]
      · simp [size]

lemma records_onBlockConnected (callbacks : Callbacks) (block : CBlock) (height : Int) :
    (db.onBlockConnected callbacks block height).records =
      (callbacks.mikDataAt block height).elim db.records fun mikData =>
        db.records.connect callbacks.hashes mikData height := by
  unfold onBlockConnected
  cases callbacks.mikDataAt block height with
  | none => rfl
  | some mikData =>
    have seen := records_noteFirstSeen db mikData.identity height
    have registered := records_noteRegistration (db.noteFirstSeen mikData.identity height) callbacks.hashes mikData
    rw [seen] at registered
    have mined : ∀ start : CIdentityDB, (start.setLastMined mikData.identity height).records =
        { start.records with lastMined := start.records.lastMined.insert mikData.identity height } := fun _ => rfl
    rw [mined, registered]
    rfl

lemma records_undoBlock (H : HashFunctions) (block : CBlock) {height : Int} (nonneg : 0 ≤ height) :
    (db.undoBlock H block height).records =
      (mikDataIn H block).elim db.records fun mikData => db.records.disconnect mikData.identity height := by
  unfold undoBlock
  cases mikDataIn H block with
  | none => rfl
  | some mikData =>
    have same := records_getFirstSeen db mikData.identity
    have atHeight : (db.records.firstSeen.find mikData.identity).getD (-1) = height ↔
        db.records.firstSeen.find mikData.identity = some height := by
      cases db.records.firstSeen.find mikData.identity with
      | none => simp; omega
      | some found => simp
    dsimp
    unfold IdentityRecords.disconnect
    rw [getFirstSeen_fst]
    by_cases here : db.records.firstSeen.find mikData.identity = some height
    · rw [if_pos (atHeight.mpr here), if_pos here, ← same]
      simp [records, removeFirstSeen, removeMIKPubKey]
    · rw [if_neg (mt atHeight.mp here), if_neg here, same]

end CIdentityDB

/-! The identity database along a history of the chain, against one that is replayed over the blocks. The
first-seen heights agree after every history. A public key is left behind by a registration that comes
off when its identity was known without one. The last-mined heights are never taken back. -/

open CIdentityDB IdentityRecords SortedMap CBlockValidator Decoder Option

structure IdentityChain where
  blocks : List CBlock
  db : CIdentityDB

/-- Blocks that are connected and disconnected; between them the database is read, and opened again. -/
inductive IdentityOp where
  | connectTip (block : CBlock)
  | disconnectTip
  | ask (identity : Identity)
  | reopen

namespace IdentityChain

def empty : IdentityChain := ⟨[], .empty⟩

variable (callbacks : Callbacks) (chain : IdentityChain)

def step : IdentityOp → IdentityChain
  | .connectTip block => ⟨block :: chain.blocks, chain.db.onBlockConnected callbacks block chain.blocks.length⟩
  | .disconnectTip =>
    match chain.blocks with
    | [] => chain
    | block :: below => ⟨below, chain.db.undoBlock callbacks.hashes block below.length⟩
  | .ask identity => { chain with db :=
      (((chain.db.getFirstSeen identity).2.getMIKPubKey identity).2.getLastMined identity).2 }
  | .reopen => { chain with db := chain.db.reopen }

def run (history : List IdentityOp) : IdentityChain := history.foldl (step callbacks) .empty

lemma run_concat (history : List IdentityOp) (op : IdentityOp) :
    run callbacks (history ++ [op]) = (run callbacks history).step callbacks op := by
  simp [run]

/-- The answers for every identity are those of a database that is replayed over the chain. -/
def Exact (rules : ExpirationRules) (chain : IdentityChain) : Prop :=
  (∀ identity, (chain.db.getFirstSeen identity).1 = ((replay callbacks chain.blocks).getFirstSeen identity).1 ∧
    (chain.db.getMIKPubKey identity).1 = ((replay callbacks chain.blocks).getMIKPubKey identity).1 ∧
    (chain.db.getLastMined identity).1 = ((replay callbacks chain.blocks).getLastMined identity).1) ∧
  ∀ block height, (checkMIKExpiration rules callbacks.hashes chain.db block height).1 =
    (checkMIKExpiration rules callbacks.hashes (replay callbacks chain.blocks) block height).1

def Unidentified : Prop :=
  ∀ block below, chain.blocks = block :: below → callbacks.mikDataAt block below.length = none

/-- If the tip registers an identity, its key is known from below or the identity is not. -/
def Introduced : Prop :=
  ∀ block below, chain.blocks = block :: below →
    ∀ mikData ∈ callbacks.mikDataAt block below.length, mikData.isRegistration = true →
    ((replay callbacks below).getMIKPubKey mikData.identity).1 = none →
      ((replay callbacks below).getFirstSeen mikData.identity).1 = -1

end IdentityChain

namespace CIdentityDB

variable {callbacks : Callbacks} {block : CBlock} {below blocks : List CBlock} {identity : Identity}
  {mikData : CMIKScriptData}

lemma records_replay_of_none (unnamed : callbacks.mikDataAt block below.length = none) :
    (replay callbacks (block :: below)).records = (replay callbacks below).records := by
  rw [replay, records_onBlockConnected, unnamed]
  rfl

lemma records_replay_of_some (named : callbacks.mikDataAt block below.length = some mikData) :
    (replay callbacks (block :: below)).records =
      (replay callbacks below).records.connect callbacks.hashes mikData below.length := by
  rw [replay, records_onBlockConnected, named]
  rfl

lemma mikDataIn_of_mikDataAt {height : Int} (named : callbacks.mikDataAt block height = some mikData) :
    mikDataIn callbacks.hashes block = some mikData := by
  unfold Callbacks.mikDataAt at named
  split at named
  · exact named
  · cases named

section

variable (callbacks) (blocks) (identity)

lemma replay_heights (height : Int) :
    ((identity, height) ∈ (replay callbacks blocks).records.firstSeen → 0 ≤ height ∧ height < blocks.length) ∧
    ((identity, height) ∈ (replay callbacks blocks).records.lastMined → 0 ≤ height ∧ height < blocks.length) := by
  induction blocks with
  | nil => exact ⟨fun inside => absurd inside (not_mem_empty _), fun inside => absurd inside (not_mem_empty _)⟩
  | cons block below ih =>
    obtain ⟨seen, mined⟩ := ih
    rw [List.length_cons]
    cases named : callbacks.mikDataAt block below.length with
    | none =>
      rw [records_replay_of_none named]
      exact ⟨fun inside => by have := seen inside; omega, fun inside => by have := mined inside; omega⟩
    | some mikData =>
      rw [records_replay_of_some named]
      have inserted {map : SortedMap Identity Int}
          (bound : (identity, height) ∈ map → 0 ≤ height ∧ height < below.length)
          (inside : (identity, height) ∈ map.insert mikData.identity below.length) :
          0 ≤ height ∧ height < ((below.length + 1 : Nat) : Int) := by
        rcases mem_insert.mp inside with same | ⟨-, old⟩
        · have := (Prod.mk.inj same).2
          omega
        · have := bound old
          omega
      refine ⟨fun inside => ?_, inserted mined⟩
      unfold connect at inside
      split at inside
      · have := seen inside
        omega
      · exact inserted seen inside

lemma seen_of_registered (unseen : (replay callbacks blocks).records.firstSeen.find identity = none) :
    (replay callbacks blocks).records.mikPubkeys.find identity = none := by
  induction blocks with
  | nil => rfl
  | cons block below ih =>
    cases named : callbacks.mikDataAt block below.length with
    | none =>
      rw [records_replay_of_none named] at unseen ⊢
      exact ih unseen
    | some mikData =>
      rw [records_replay_of_some named] at unseen ⊢
      have other : identity ≠ mikData.identity := by
        rintro rfl
        unfold connect at unseen
        split at unseen
        case isTrue known => simp [unseen] at known
        case isFalse => simp [find_insert] at unseen
      have before : (replay callbacks below).records.firstSeen.find identity = none := by
        unfold connect at unseen
        split at unseen
        · exact unseen
        · simpa [find_insert, other] using unseen
      unfold connect register
      dsimp only
      split
      · simpa [find_insert, other] using ih before
      · exact ih before

end

variable {db : CIdentityDB}

section

variable (same : db.records.firstSeen = (replay callbacks (block :: below)).records.firstSeen)

include same

/-- Taking the block back removes the identity that it has introduced, and no other. -/
lemma records_undo :
    (db.undoBlock callbacks.hashes block below.length).records = match callbacks.mikDataAt block below.length with
      | none => db.records
      | some mikData => match (replay callbacks below).records.firstSeen.find mikData.identity with
        | some _ => db.records
        | none => { db.records with
          firstSeen := db.records.firstSeen.erase mikData.identity
          mikPubkeys := db.records.mikPubkeys.erase mikData.identity } := by
  have late : ∀ identity, (replay callbacks below).records.firstSeen.find identity ≠ some (below.length : Int) := by
    intro identity found
    have bound := (replay_heights callbacks below identity _).1 (find_eq_some_iff.mp found)
    omega
  rw [records_undoBlock db callbacks.hashes block (Int.natCast_nonneg _)]
  cases named : callbacks.mikDataAt block below.length with
  | none =>
    rw [records_replay_of_none named] at same
    cases mikDataIn callbacks.hashes block with
    | none => rfl
    | some mikData => rw [elim_some, disconnect, same, if_neg (late _)]
  | some mikData =>
    rw [records_replay_of_some named] at same
    rw [mikDataIn_of_mikDataAt named, elim_some, disconnect, same, connect]
    cases known : (replay callbacks below).records.firstSeen.find mikData.identity with
    | some first =>
      have apart : first ≠ (below.length : Int) := fun isTop =>
        late mikData.identity (known.trans (congrArg some isTop))
      simp [known, apart]
    | none => simp [known, find_insert]

lemma undo_firstSeen :
    (db.undoBlock callbacks.hashes block below.length).records.firstSeen =
      (replay callbacks below).records.firstSeen := by
  rw [records_undo same]
  cases named : callbacks.mikDataAt block below.length with
  | none => exact same.trans (congrArg IdentityRecords.firstSeen (records_replay_of_none named))
  | some mikData =>
    rw [records_replay_of_some named, connect] at same
    cases known : (replay callbacks below).records.firstSeen.find mikData.identity with
    | some first => simpa [known] using same
    | none =>
      simp only [known, isSome_none, Bool.false_eq_true, if_false] at same ⊢
      rw [same]
      exact erase_insert_of_absent known _

end

/-- So do the keys, unless the block has registered an identity that was known without one. -/
lemma undo_mikPubkeys (sameSeen : db.records.firstSeen = (replay callbacks (block :: below)).records.firstSeen)
    (same : db.records.mikPubkeys = (replay callbacks (block :: below)).records.mikPubkeys)
    (introduced : ∀ mikData ∈ callbacks.mikDataAt block below.length, mikData.isRegistration = true →
      (replay callbacks below).records.mikPubkeys.find mikData.identity = none →
        (replay callbacks below).records.firstSeen.find mikData.identity = none) :
    (db.undoBlock callbacks.hashes block below.length).records.mikPubkeys =
      (replay callbacks below).records.mikPubkeys := by
  rw [records_undo sameSeen]
  cases named : callbacks.mikDataAt block below.length with
  | none => exact same.trans (congrArg IdentityRecords.mikPubkeys (records_replay_of_none named))
  | some mikData =>
    rw [records_replay_of_some named, connect] at same
    dsimp only at same ⊢
    cases known : (replay callbacks below).records.firstSeen.find mikData.identity with
    | some first =>
      dsimp only
      rw [same, register, if_neg]
      rintro ⟨registers, keyless, -⟩
      have unseen := introduced mikData named registers keyless
      rw [known] at unseen
      cases unseen
    | none =>
      have keyless := seen_of_registered callbacks below mikData.identity known
      dsimp only
      rw [same, register]
      split
      · exact erase_insert_of_absent keyless _
      · exact erase_of_absent (find_eq_none_iff.mp keyless)

lemma undo_lastMined (db : CIdentityDB) (H : HashFunctions) (block : CBlock) (height : Nat) :
    (db.undoBlock H block height).records.lastMined = db.records.lastMined := by
  rw [records_undoBlock db H block (Int.natCast_nonneg _)]
  cases mikDataIn H block with
  | none => rfl
  | some mikData =>
    dsimp
    unfold disconnect
    split <;> rfl

lemma undo_unidentified (unnamed : callbacks.mikDataAt block below.length = none)
    (same : db.records = (replay callbacks (block :: below)).records) :
    (db.undoBlock callbacks.hashes block below.length).records = (replay callbacks below).records := by
  rw [records_undo (congrArg IdentityRecords.firstSeen same), unnamed]
  exact same.trans (records_replay_of_none unnamed)

lemma checkMIKExpiration_congr {first second : CIdentityDB} (same : first.records = second.records)
    (rules : ExpirationRules)
    (H : HashFunctions) (block : CBlock) (height : Int) :
    (checkMIKExpiration rules H first block height).1 = (checkMIKExpiration rules H second block height).1 := by
  unfold checkMIKExpiration
  split
  · rfl
  · split
    · rfl
    · split
      · rfl
      · rename_i mikData _ _
        dsimp only
        rw [getLastMined_fst, getLastMined_fst, same]
        by_cases never : (second.records.lastMined.find mikData.identity).getD (-1) < 0
        · rw [if_pos never, if_pos never, getFirstSeen_fst, getFirstSeen_fst, records_getLastMined,
            records_getLastMined, same]
          split
          · rfl
          · split <;> rfl
        · rw [if_neg never, if_neg never]
          split <;> rfl

end CIdentityDB

namespace IdentityChain

variable (callbacks : Callbacks)

/-- What connecting keeps, and disconnecting where it is allowed, holds after every history that disconnects
only where it is allowed; reads do not matter to what is said of the records. -/
lemma run_induction {callbacks : Callbacks} (allowed : IdentityChain → Prop)
    (holds : List CBlock → IdentityRecords → Prop)
    (start : holds [] CIdentityDB.empty.records)
    (connects : ∀ (chain : IdentityChain) block, holds chain.blocks chain.db.records →
      holds (block :: chain.blocks) (chain.db.onBlockConnected callbacks block chain.blocks.length).records)
    (disconnects : ∀ (chain : IdentityChain) block below, chain.blocks = block :: below → allowed chain →
      holds (block :: below) chain.db.records →
      holds below (chain.db.undoBlock callbacks.hashes block below.length).records)
    (history : List IdentityOp)
    (clear : ∀ earlier later, history = earlier ++ .disconnectTip :: later → allowed (run callbacks earlier)) :
    holds (run callbacks history).blocks (run callbacks history).db.records := by
  induction history using List.reverseRecOn with
  | nil => exact start
  | append_singleton earlier op ih =>
    have before := ih fun front back split => clear front (back ++ [op]) (by simp [split])
    rw [run_concat]
    cases op with
    | connectTip block => exact connects _ block before
    | disconnectTip =>
      have may := clear earlier [] rfl
      unfold step
      cases blocks : (run callbacks earlier).blocks with
      | nil => simpa only using before
      | cons block below =>
        rw [blocks] at before
        exact disconnects _ block below blocks may before
    | ask identity =>
      simpa [step] using before
    | reopen => exact before

variable (history : List IdentityOp)

lemma firstSeen_run :
    (run callbacks history).db.records.firstSeen =
      (replay callbacks (run callbacks history).blocks).records.firstSeen := by
  refine run_induction (fun _ => True)
    (fun blocks records => records.firstSeen = (replay callbacks blocks).records.firstSeen)
    rfl ?_ ?_ history fun _ _ _ => trivial
  · intro chain block same
    rw [replay, records_onBlockConnected, records_onBlockConnected]
    cases callbacks.mikDataAt block chain.blocks.length with
    | none => exact same
    | some mikData =>
      dsimp [connect]
      rw [same]
  · intro chain block below _ _ same
    exact undo_firstSeen same

/-- The keys are those of the chain if every registration that came off was of an identity that is not known below it,
or has its key from there. -/
lemma mikPubkeys_run (clear : ∀ earlier later, history = earlier ++ .disconnectTip :: later →
    Introduced callbacks (run callbacks earlier)) :
    (run callbacks history).db.records.mikPubkeys =
      (replay callbacks (run callbacks history).blocks).records.mikPubkeys := by
  refine (run_induction (Introduced callbacks)
    (fun blocks records => records.firstSeen = (replay callbacks blocks).records.firstSeen ∧
      records.mikPubkeys = (replay callbacks blocks).records.mikPubkeys) ⟨rfl, rfl⟩ ?_ ?_ history clear).2
  · rintro chain block ⟨sameSeen, same⟩
    rw [replay, records_onBlockConnected, records_onBlockConnected]
    cases callbacks.mikDataAt block chain.blocks.length with
    | none => exact ⟨sameSeen, same⟩
    | some mikData =>
      dsimp [connect, register]
      rw [sameSeen, same]
      exact ⟨rfl, rfl⟩
  · rintro chain block below blocks introduced ⟨sameSeen, same⟩
    refine ⟨undo_firstSeen sameSeen, undo_mikPubkeys sameSeen same ?_⟩
    intro mikData named registers keyless
    have unseen := introduced block below blocks mikData named registers (by rw [getMIKPubKey_fst, keyless])
    rw [getFirstSeen_fst] at unseen
    cases found : (replay callbacks below).records.firstSeen.find mikData.identity with
    | none => rfl
    | some height =>
      have bound := (replay_heights callbacks below mikData.identity height).1 (find_eq_some_iff.mp found)
      rw [found] at unseen
      simp only [getD_some] at unseen
      omega

/-- All records are those of the chain if no block with a miner came off. -/
lemma records_run (clear : ∀ earlier later, history = earlier ++ .disconnectTip :: later →
    Unidentified callbacks (run callbacks earlier)) :
    (run callbacks history).db.records = (replay callbacks (run callbacks history).blocks).records := by
  refine run_induction (Unidentified callbacks) (fun blocks records => records = (replay callbacks blocks).records)
    rfl ?_ ?_ history clear
  · intro chain block same
    rw [replay, records_onBlockConnected, records_onBlockConnected, same]
  · intro chain block below blocks unidentified same
    exact undo_unidentified (unidentified block below blocks) same

variable {block : CBlock} {mikData : CMIKScriptData}

/-- A miner whose block has come off keeps the height as its last one. -/
lemma not_exact_of_disconnect {callbacks : Callbacks} {rules : ExpirationRules} {chain : IdentityChain}
    {below : List CBlock} (blocks : chain.blocks = block :: below)
    (named : callbacks.mikDataAt block below.length = some mikData) (before : Exact callbacks rules chain) :
    ¬ Exact callbacks rules (chain.step callbacks .disconnectTip) := by
  intro after
  have mined := (before.1 mikData.identity).2.2
  have kept := (after.1 mikData.identity).2.2
  unfold step at kept
  rw [blocks] at mined kept
  rw [getLastMined_fst, getLastMined_fst, records_replay_of_some named] at mined
  rw [getLastMined_fst, getLastMined_fst, undo_lastMined, mined] at kept
  simp only [connect, find_insert, if_true, getD_some] at kept
  cases found : (replay callbacks below).records.lastMined.find mikData.identity with
  | none =>
    rw [found] at kept
    simp only [getD_none] at kept
    omega
  | some height =>
    have bound := (replay_heights callbacks below mikData.identity height).2 (find_eq_some_iff.mp found)
    rw [found] at kept
    simp only [getD_some] at kept
    omega

/-- After every history the first-seen heights are those of the chain. The keys are, if no registration came off of an
identity that was known without one. Everything is in every state of the history exactly if no block that names
its miner came off. -/
theorem identity_db_exact_iff (rules : ExpirationRules) (history : List IdentityOp) :
    (∀ identity, ((run callbacks history).db.getFirstSeen identity).1 =
      ((CIdentityDB.replay callbacks (run callbacks history).blocks).getFirstSeen identity).1) ∧
    ((∀ earlier later, history = earlier ++ .disconnectTip :: later → Introduced callbacks (run callbacks earlier)) →
      ∀ identity, ((run callbacks history).db.getMIKPubKey identity).1 =
        ((CIdentityDB.replay callbacks (run callbacks history).blocks).getMIKPubKey identity).1) ∧
    ((∀ earlier later, history = earlier ++ later → Exact callbacks rules (run callbacks earlier)) ↔
      ∀ earlier later, history = earlier ++ .disconnectTip :: later →
      Unidentified callbacks (run callbacks earlier)) := by
  refine ⟨fun identity => by simp [firstSeen_run],
    fun clear identity => by simp [mikPubkeys_run callbacks history clear], ?_, ?_⟩
  · intro always earlier later isHistory block below blocks
    cases named : callbacks.mikDataAt block below.length with
    | none => rfl
    | some mikData =>
      have after := always (earlier ++ [.disconnectTip]) later (by simp [isHistory])
      rw [run_concat] at after
      exact absurd after (not_exact_of_disconnect blocks named (always earlier _ isHistory))
  · intro clear earlier later isHistory
    have same := records_run callbacks earlier fun front back split =>
      clear front (back ++ later) (by simp [isHistory, split])
    exact ⟨fun identity => by simp [same], fun block height => checkMIKExpiration_congr same rules _ block height⟩

/-- A block comes and goes. Its miner is unknown to the chain, and the database lets it mine on. -/
theorem identity_db_keeps_last_mined : (run minerCallbacks [.connectTip minerBlock, .disconnectTip]).blocks = [] ∧
    ((run minerCallbacks [.connectTip minerBlock, .disconnectTip]).db.getLastMined firstMiner).1 = 0 ∧
    ((CIdentityDB.replay minerCallbacks []).getLastMined firstMiner).1 = -1 ∧
    (checkMIKExpiration { mikExpirationActivationHeight := 0 } minerCallbacks.hashes
      (run minerCallbacks [.connectTip minerBlock, .disconnectTip]).db minerBlock 1).1 = none ∧
    (checkMIKExpiration { mikExpirationActivationHeight := 0 } minerCallbacks.hashes (replay minerCallbacks [])
      minerBlock 1).1 = some "CheckMIKExpiration: unknown identity using reference block at height 1" := by
  refine ⟨rfl, ?_, rfl, ?_, ?_⟩ <;> decide +kernel

end IdentityChain

end Dilithion.DFMP
