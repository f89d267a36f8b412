import Dilithion.Lib.LruCache
import Dilithion.Lib.Ledger
import Dilithion.Consensus.Validation

/-! The UTXO set: a key-value database, a bounded cache in front of it, pending additions and
deletions, and running counters. Applying and undoing a block stage a write batch while the cache and
the counters are updated at once; the batch reaches the database only at the end. -/

namespace Dilithion

open Lib Lib.WriteBatch LittleEndian

structure Env where
  hashes : HashFunctions
  params : ChainParams := {}
  maxCacheSize : Nat := 1000000
  dilithium3Verify : Bytes → Bytes → Bytes → Bool := fun _ _ _ => false
  hasCooldownTracker : Bool := true
  hasDnaRegistry : Bool := true

structure CUTXOEntry where
  out : CTxOut
  nHeight : UInt32
  fCoinBase : Bool
  deriving DecidableEq

abbrev UTXOLedger := Ledger COutPoint CUTXOEntry

abbrev UTXOEvent := Ledger.Event COutPoint CUTXOEntry

abbrev SpentRecord := COutPoint × CUTXOEntry

structure CUTXOStats where
  nUTXOs : UInt64
  nTotalAmount : UInt64
  nHeight : UInt32
  deriving DecidableEq

structure CUTXOSet where
  isOpen : Bool
  db : Table Bytes Bytes
  cache : Table COutPoint CUTXOEntry
  cacheAdditions : Table COutPoint CUTXOEntry
  cacheDeletions : Table COutPoint Bool
  stats : CUTXOStats

/-- `'u'`, the transaction hash, the output index. -/
def serializeOutPoint (outpoint : COutPoint) : Bytes :=
  0x75 :: (outpoint.hash.data ++ serializeUint32 outpoint.n)

/-- `"undo_"` and the block hash. -/
def undoKey (blockHash : Uint256) : Bytes := [0x75, 0x6e, 0x64, 0x6f, 0x5f] ++ blockHash.data

/-- `"utxo_stats"`. -/
def statsKey : Bytes := [0x75, 0x74, 0x78, 0x6f, 0x5f, 0x73, 0x74, 0x61, 0x74, 0x73]

def serializeBool (flag : Bool) : Bytes := [if flag then 1 else 0]

def serializeUTXOEntry (entry : CUTXOEntry) : Bytes :=
  let scriptSize := UInt32.ofNat entry.out.scriptPubKey.length
  serializeUint32 entry.nHeight ++ serializeBool entry.fCoinBase ++ serializeUint64 entry.out.nValue ++
    serializeUint32 scriptSize ++ entry.out.scriptPubKey.take scriptSize.toNat

def deserializeUTXOEntry (data : Bytes) : Option CUTXOEntry :=
  if data.length < 17 then none
  else
    let scriptSize := value ((data.drop 13).take 4)
    if 17 + scriptSize ≠ data.length then none
    else some {
      out := ⟨UInt64.ofNat (value ((data.drop 5).take 8)), data.drop 17⟩
      nHeight := UInt32.ofNat (value (data.take 4))
      fCoinBase := decide (value ((data.drop 4).take 1) ≠ 0) }

def serializeStats (stats : CUTXOStats) : Bytes :=
  serializeUint64 stats.nUTXOs ++ serializeUint64 stats.nTotalAmount ++ serializeUint32 stats.nHeight

namespace CUTXOStats

/-- One output more, worth `nValue`; both counters wrap. -/
def add (stats : CUTXOStats) (nValue : UInt64) : CUTXOStats :=
  { stats with nUTXOs := stats.nUTXOs + 1, nTotalAmount := stats.nTotalAmount + nValue }

/-- One output less, worth `nValue`; a counter that would go below zero is left alone. -/
def subtract (stats : CUTXOStats) (nValue : UInt64) : CUTXOStats :=
  { stats with
    nUTXOs := if 0 < stats.nUTXOs then stats.nUTXOs - 1 else stats.nUTXOs
    nTotalAmount := if nValue ≤ stats.nTotalAmount then stats.nTotalAmount - nValue else stats.nTotalAmount }

end CUTXOStats

namespace CUTXOSet

def updateCache (env : Env) (s : CUTXOSet) (outpoint : COutPoint) (entry : CUTXOEntry) : CUTXOSet :=
  { s with cache := LruCache.update env.maxCacheSize outpoint entry s.cache }

variable (s : CUTXOSet) (outpoint : COutPoint)

def removeFromCache : CUTXOSet :=
  { s with cache := s.cache.erase outpoint }

def stored : Option CUTXOEntry :=
  (s.db.lookup (serializeOutPoint outpoint)).bind deserializeUTXOEntry

def getUTXO (env : Env) (s : CUTXOSet) (outpoint : COutPoint) : Option CUTXOEntry × CUTXOSet :=
  if ¬ s.isOpen then (none, s)
  else if (s.cacheDeletions.lookup outpoint).isSome then (none, s)
  else match s.cacheAdditions.lookup outpoint with
    | some entry => (some entry, s)
    | none =>
      match s.cache.lookup outpoint with
      | some entry => (some entry, s)
      | none =>
        match s.stored outpoint with
        | none => (none, s)
        | some entry => (some entry, s.updateCache env outpoint entry)

def isCoinBaseMature (env : Env) (s : CUTXOSet) (outpoint : COutPoint) (currentHeight : UInt32) : Bool :=
  match (s.getUTXO env outpoint).1 with
  | none => false
  | some entry => !entry.fCoinBase || decide (entry.nHeight + env.params.coinbaseMaturity ≤ currentHeight)

/-- Whether the two database writes of a call succeed: its own batch, and the flush after it. -/
structure Writes where
  batch : Bool := true
  flush : Bool := true

def flushBatch : List (Op Bytes Bytes) :=
  s.cacheAdditions.entries.map (fun entry => .put (serializeOutPoint entry.1) (serializeUTXOEntry entry.2)) ++
    s.cacheDeletions.entries.map (fun entry => .delete (serializeOutPoint entry.1)) ++
    [.put statsKey (serializeStats s.stats)]

def flush (written : Bool) : Bool × CUTXOSet :=
  if ¬ s.isOpen then (false, s)
  else if ¬ written then (false, s)
  else (true, { s with db := write s.flushBatch s.db, cacheAdditions := ∅, cacheDeletions := ∅ })

end CUTXOSet

/-- A set whose cache and counters are ahead of the database by the operations in `batch`. -/
structure Staged where
  set : CUTXOSet
  batch : List (Op Bytes Bytes)

namespace Staged

def remove (staged : Staged) (outpoint : COutPoint) (nValue : UInt64) : Staged where
  set := { staged.set.removeFromCache outpoint with stats := staged.set.stats.subtract nValue }
  batch := staged.batch ++ [.delete (serializeOutPoint outpoint)]

def put (env : Env) (staged : Staged) (outpoint : COutPoint) (entry : CUTXOEntry) : Staged where
  set := { staged.set.updateCache env outpoint entry with stats := staged.set.stats.add entry.out.nValue }
  batch := staged.batch ++ [.put (serializeOutPoint outpoint) (serializeUTXOEntry entry)]

/-- The last two steps of a block: write the batch, then flush the counters. -/
def commit (staged : Staged) (writes : CUTXOSet.Writes) : Bool × CUTXOSet :=
  if ¬ writes.batch then (false, staged.set)
  else { staged.set with db := write staged.batch staged.set.db }.flush writes.flush

end Staged

def createdOutputs (txid : Uint256) (vout : List CTxOut) : List (COutPoint × CTxOut) :=
  vout.zipIdx.map fun output => (⟨txid, UInt32.ofNat output.2⟩, output.1)

open Lib.Decoder

def serializeUndoEntry (spent : SpentRecord) : Bytes :=
  spent.1.hash.data ++ serializeUint32 spent.1.n ++ serializeUint64 spent.2.out.nValue ++
    serializeUint32 (UInt32.ofNat spent.2.out.scriptPubKey.length) ++ spent.2.out.scriptPubKey ++
    serializeUint32 spent.2.nHeight ++ serializeBool spent.2.fCoinBase

-- The count is a 32-bit counter of the source.
def undoPayload (spent : List SpentRecord) : Bytes :=
  serializeUint32 (UInt32.ofNat spent.length) ++ spent.flatMap serializeUndoEntry

def undoData (H : HashFunctions) (spent : List SpentRecord) : Bytes :=
  undoPayload spent ++ (H.sha3_256 (undoPayload spent)).data

def deserializeUndoEntry : Decoder SpentRecord := do
  let outpoint ← takeBytes (32 + 4) "Insufficient undo data (outpoint)"
  let nValue ← takeBytes 8 "Insufficient undo data (nValue)"
  let scriptLength ← takeBytes 4 "Insufficient undo data (script length)"
  let scriptPubKey ← takeBytes (value scriptLength) "Insufficient undo data (scriptPubKey)"
  let rest ← takeBytes (4 + 1) "Insufficient undo data (height/coinbase)"
  return (⟨Uint256.ofNat (value (outpoint.take 32)), UInt32.ofNat (value (outpoint.drop 32))⟩,
    { out := ⟨UInt64.ofNat (value nValue), scriptPubKey⟩
      nHeight := UInt32.ofNat (value (rest.take 4))
      fCoinBase := decide (value (rest.drop 4) ≠ 0) })

inductive UndoChecksumResult where
  | valid
  | sizeInvalid
  | checksumMismatch
  deriving DecidableEq, Repr

def verifyUndoChecksum (H : HashFunctions) (undoValue : Bytes) : UndoChecksumResult :=
  if undoValue.length < 36 then .sizeInvalid
  else if (H.sha3_256 (undoValue.take (undoValue.length - 32))).data ≠
      undoValue.drop (undoValue.length - 32) then .checksumMismatch
  else .valid

structure Applying where
  staged : Staged
  spent : List SpentRecord

variable (env : Env) (applying : Applying)

/-- Looks the output up, then stages its removal. A missing output ends the call with the set as
the earlier steps left it. -/
def spendInput (txin : CTxIn) : Except CUTXOSet Applying :=
  match applying.staged.set.getUTXO env txin.prevout with
  | (none, set) => .error set
  | (some entry, set) => .ok {
      staged := { applying.staged with set }.remove txin.prevout entry.out.nValue
      spent := applying.spent ++ [(txin.prevout, entry)] }

variable (height : UInt32)

def addOutputs (isCoinbase : Bool) (staged : Staged) (outputs : List (COutPoint × CTxOut)) : Staged :=
  outputs.foldl (fun now output => now.put env output.1 ⟨output.2, height, isCoinbase⟩) staged

-- Only the first transaction counts as the coinbase here, whatever its inputs are.
def spendInputs (isCoinbase : Bool) (applying : Applying) (vin : List CTxIn) : Except CUTXOSet Applying :=
  if isCoinbase then .ok applying else vin.foldlM (spendInput env) applying

def applyTransaction (isCoinbase : Bool) (applying : Applying) (tx : CTransaction) : Except CUTXOSet Applying := do
  let applying ← spendInputs env isCoinbase applying tx.vin
  return { applying with
    staged := addOutputs env height isCoinbase applying.staged
      (createdOutputs (tx.getHash env.hashes) tx.vout) }

def applyTransactions (applying : Applying) : List CTransaction → Except CUTXOSet Applying
  | [] => .ok applying
  | coinbase :: rest => do
    let applying ← applyTransaction env height true applying coinbase
    rest.foldlM (applyTransaction env height false) applying

def blockTransactions (block : CBlock) : List CTransaction :=
  match CBlockValidator.deserializeBlockTransactions block with
  | .error _ => []
  | .ok transactions => transactions

def removeOutputs (staged : Staged) (outputs : List (COutPoint × CTxOut)) : Staged :=
  outputs.foldl (fun now output => now.remove output.1 output.2.nValue) staged

def blockOutputsReversed (H : HashFunctions) (transactions : List CTransaction) : List (COutPoint × CTxOut) :=
  transactions.reverse.flatMap fun tx => createdOutputs (tx.getHash H) tx.vout

/-- Restores `count` recorded entries; a record cut short ends the call with the set as it is then. -/
def restoreInputs (env : Env) : Nat → Bytes → Staged → Except CUTXOSet Staged
  | 0, _, staged => .ok staged
  | count + 1, data, staged =>
    match deserializeUndoEntry.run data with
    | .error _ => .error staged.set
    | .ok ((outpoint, entry), rest) => restoreInputs env count rest (staged.put env outpoint entry)

def lowerHeight (stats : CUTXOStats) : CUTXOStats :=
  { stats with nHeight := if 0 < stats.nHeight then stats.nHeight - 1 else stats.nHeight }

def Staged.lowered (staged : Staged) : Staged :=
  { staged with set := { staged.set with stats := lowerHeight staged.set.stats } }

/-- The height and the undo record complete the staged changes of a block. -/
def Applying.finish (blockHash : Uint256) : Staged where
  set := { applying.staged.set with stats := { applying.staged.set.stats with nHeight := height } }
  batch := applying.staged.batch ++ [.put (undoKey blockHash) (undoData env.hashes applying.spent)]

namespace CUTXOSet

def applyBlock (env : Env) (writes : Writes) (s : CUTXOSet) (block : CBlock) (height : UInt32)
    (blockHash : Uint256) : Bool × CUTXOSet :=
  if ¬ s.isOpen then (false, s)
  else if (blockTransactions block).isEmpty then (false, s)
  else match applyTransactions env height ⟨⟨s, []⟩, []⟩ (blockTransactions block) with
    | .error set => (false, set)
    | .ok applying => (applying.finish env height blockHash).commit writes

/-- The undo record, with the hash it is stored under: the index hash, or else the hash of the header. -/
def findUndo (env : Env) (s : CUTXOSet) (block : CBlock) (blockHash : Uint256) : Option (Uint256 × Bytes) :=
  match s.db.lookup (undoKey blockHash) with
  | some undoValue => some (blockHash, undoValue)
  | none =>
    let computedHash := block.toCBlockHeader.getHash env.hashes
    if computedHash ≠ blockHash then
      (s.db.lookup (undoKey computedHash)).map (fun undoValue => (computedHash, undoValue))
    else none

-- Without a record only a block whose later transactions have no inputs can be undone.
def undoWithoutRecord (env : Env) (writes : Writes) (s : CUTXOSet) (transactions : List CTransaction) :
    Bool × CUTXOSet :=
  if transactions.isEmpty then (false, s)
  else if transactions.tail.any (fun tx => ¬ tx.vin.isEmpty) then (false, s)
  else
    (Staged.lowered (removeOutputs ⟨s, []⟩ (blockOutputsReversed env.hashes transactions))).commit writes

def undoWithRecord (env : Env) (writes : Writes) (s : CUTXOSet) (transactions : List CTransaction)
    (storedUnder : Uint256) (undoValue : Bytes) : Bool × CUTXOSet :=
  if verifyUndoChecksum env.hashes undoValue ≠ .valid then (false, s)
  else if transactions.isEmpty then (false, s)
  else
    let payload := undoValue.take (undoValue.length - 32)
    let removed := removeOutputs ⟨s, []⟩ (blockOutputsReversed env.hashes transactions)
    match restoreInputs env (value (payload.take 4)) (payload.drop 4) removed with
    | .error set => (false, set)
    | .ok staged =>
      (Staged.lowered { staged with batch := staged.batch ++ [.delete (undoKey storedUnder)] }).commit writes

def undoBlock (env : Env) (writes : Writes) (s : CUTXOSet) (block : CBlock) (blockHash : Uint256) : Bool × CUTXOSet :=
  if ¬ s.isOpen then (false, s)
  else match s.findUndo env block blockHash with
    | none => undoWithoutRecord env writes s (blockTransactions block)
    | some (storedUnder, undoValue) => undoWithRecord env writes s (blockTransactions block) storedUnder undoValue

end CUTXOSet

end Dilithion
