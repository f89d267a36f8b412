import Dilithion.Primitives.Block

/-! The wallet's write-ahead log. The header of the file holds an entry count, which is written as zero
when the file is made and never again, so that a later reader takes the file to have no entries. -/

namespace Dilithion

open Lib LittleEndian Decoder List

inductive WALEntryType where
  | beginOperation
  | checkpoint
  | commit
  | rollback
  | unknown (byte : UInt8)
  deriving DecidableEq

namespace WALEntryType

def byte : WALEntryType → UInt8
  | beginOperation => 0x01
  | checkpoint => 0x02
  | commit => 0x03
  | rollback => 0x04
  | unknown byte => byte

def ofByte (byte : UInt8) : WALEntryType :=
  if byte = 0x01 then beginOperation
  else if byte = 0x02 then checkpoint
  else if byte = 0x03 then commit
  else if byte = 0x04 then rollback
  else unknown byte

end WALEntryType

inductive WALOperation where
  | walletInitialization
  | walletEncryption
  | hdWalletCreation
  | hdWalletRestore
  | unknown (byte : UInt8)
  deriving DecidableEq

namespace WALOperation

def byte : WALOperation → UInt8
  | walletInitialization => 0x01
  | walletEncryption => 0x02
  | hdWalletCreation => 0x03
  | hdWalletRestore => 0x04
  | unknown byte => byte

def ofByte (byte : UInt8) : WALOperation :=
  if byte = 0x01 then walletInitialization
  else if byte = 0x02 then walletEncryption
  else if byte = 0x03 then hdWalletCreation
  else if byte = 0x04 then hdWalletRestore
  else unknown byte

end WALOperation

structure WALEntry where
  type : WALEntryType
  operationId : Bytes
  stepName : Bytes
  data : Bytes
  timestamp : UInt64
  crc32 : UInt32
  deriving DecidableEq

namespace WALEntry

def maxOperationIdLength : Nat := 256

def maxStepNameLength : Nat := 256

def maxStepDataLength : Nat := 1024 * 1024

def crc32Table (i : UInt32) : UInt32 :=
  (List.range 8).foldl (fun crc _ => if crc &&& 1 ≠ 0 then (crc >>> 1) ^^^ 0xEDB88320 else crc >>> 1) i

def calculateCrc32Of (data : Bytes) : UInt32 :=
  let crc : UInt32 := data.foldl
    (fun crc byte => (crc >>> 8) ^^^ crc32Table ((crc ^^^ byte.toUInt32) &&& 0xFF)) 0xFFFFFFFF
  crc ^^^ 0xFFFFFFFF

def covered (entry : WALEntry) : Bytes :=
  entry.type.byte :: (encode 2 entry.operationId.length ++ entry.operationId ++
    encode 2 entry.stepName.length ++ entry.stepName ++
    encode 4 entry.data.length ++ entry.data ++ encode 8 entry.timestamp.toNat)

def calculateCRC32 (entry : WALEntry) : UInt32 := calculateCrc32Of entry.covered

def stamped (type : WALEntryType) (operationId stepName data : Bytes) (timestamp : UInt64) : WALEntry :=
  let entry : WALEntry := ⟨type, operationId, stepName, data, timestamp, 0⟩
  { entry with crc32 := entry.calculateCRC32 }

def serialize (entry : WALEntry) : Bytes :=
  if maxOperationIdLength < entry.operationId.length then []
  else if maxStepNameLength < entry.stepName.length then []
  else if maxStepDataLength < entry.data.length then []
  else entry.covered ++ encode 4 entry.calculateCRC32.toNat

def sized (width limit : Nat) (field : String) : Decoder Bytes := do
  let size ← takeBytes width ("Truncated " ++ field ++ " length")
  require (value size ≤ limit) ("Invalid " ++ field ++ " length")
  takeBytes (value size) ("Truncated " ++ field)

def deserialize : Decoder WALEntry := do
  let bytes ← remaining
  require (21 ≤ bytes.length) "Entry too small"
  let type ← takeBytes 1 "Entry too small"
  let operationId ← sized 2 maxOperationIdLength "operation ID"
  let stepName ← sized 2 maxStepNameLength "step name"
  let data ← sized 4 maxStepDataLength "data"
  let timestamp ← takeBytes 8 "Truncated timestamp"
  let rest ← remaining
  let crc32 ← takeBytes 4 "Truncated CRC32"
  let calculated := calculateCrc32Of (bytes.take (bytes.length - rest.length))
  require (calculated.toNat = value crc32) "CRC32 mismatch"
  return ⟨.ofByte (type.headD 0), operationId, stepName, data, .ofNat (value timestamp), calculated⟩

end WALEntry

structure CWalletWAL where
  walInitialized : Bool
  walFile : Option Bytes

namespace CWalletWAL

def opened (walFile : Option Bytes) : CWalletWAL := ⟨true, walFile⟩

/-- `DILWWAL1` -/
def walMagic : Bytes := [68, 73, 76, 87, 87, 65, 76, 49]

def walVersion : Nat := 1

def header (entryCount : Nat) : Bytes := walMagic ++ encode 4 walVersion ++ encode 4 entryCount

variable (wal : CWalletWAL)

def writeHeader (entryCount : Nat) : CWalletWAL := { wal with walFile := some (header entryCount) }

def writeEntry (entry : WALEntry) : Bool × CWalletWAL :=
  if !wal.walInitialized then (false, wal)
  else if entry.serialize = [] then (false, wal)
  else (true, { wal with walFile := some (wal.walFile.getD [] ++ entry.serialize) })

def beginOperation (wal : CWalletWAL) (op : WALOperation) (generatedId : Bytes) (time : UInt64) : Bool × CWalletWAL :=
  if !wal.walInitialized then (false, wal)
  else
    let created := if wal.walFile.isNone then wal.writeHeader 0 else wal
    created.writeEntry (.stamped .beginOperation generatedId [op.byte] [] time)

def checkpoint (wal : CWalletWAL) (operationId stepName stepData : Bytes) (time : UInt64) : Bool × CWalletWAL :=
  wal.writeEntry (.stamped .checkpoint operationId stepName stepData time)

/-- `Commit` and `Rollback`: the file is deleted, whatever else it holds. -/
def finish (type : WALEntryType) (wal : CWalletWAL) (operationId : Bytes) (time : UInt64) : Bool × CWalletWAL :=
  match wal.writeEntry (.stamped type operationId [] [] time) with
  | (false, written) => (false, written)
  | (true, written) => (true, { written with walFile := none })

def commit (wal : CWalletWAL) : Bytes → UInt64 → Bool × CWalletWAL := finish .commit wal

def rollback (wal : CWalletWAL) : Bytes → UInt64 → Bool × CWalletWAL := finish .rollback wal

def maxWalEntries : Nat := 10000

def minEntrySize : Nat := 21

/-- The entries from the position on. The next one is sought at a multiple of the size of this one. -/
def readFrom (file : Bytes) (total : Nat) : Nat → Nat → Except String (List WALEntry)
  | 0, _ => .ok []
  | left + 1, position =>
    -- a buffer of negative size cannot be made
    if file.length < position then .error "length_error"
    else do
      let (entry, _) ← WALEntry.deserialize.run (file.drop position)
      let entries ← readFrom file total left (16 + entry.serialize.length * (total - left))
      return entry :: entries

def readEntries : Except String (List WALEntry) :=
  if !wal.walInitialized then .error "WAL not initialized"
  else match wal.walFile with
    | none => .ok []
    | some file =>
      let entryCount := value ((file.drop 12).take 4)
      if file.length < 16 then .error "WAL file too small (missing header)"
      else if file.take 8 ≠ walMagic then .error "Invalid magic number"
      else if value ((file.drop 8).take 4) ≠ walVersion then .error "Unsupported WAL version"
      else if maxWalEntries < entryCount then .error "Entry count too large"
      else if 0 < entryCount ∧ file.length - 16 < entryCount * minEntrySize then .error
        "Entry count inconsistent with file size"
      else readFrom file entryCount entryCount 16

/-- `operation_complete[id] = complete`; the keys stand in their order. -/
def assign (id : Bytes) (complete : Bool) : List (Bytes × Bool) → List (Bytes × Bool)
  | [] => [(id, complete)]
  | item :: rest =>
    if item.1 < id then item :: assign id complete rest
    else if item.1 = id then (id, complete) :: rest
    else (id, complete) :: item :: rest

def operationComplete (entries : List WALEntry) : List (Bytes × Bool) :=
  entries.foldl (fun known entry => match entry.type with
    | .beginOperation => assign entry.operationId false known
    | .commit | .rollback => assign entry.operationId true known
    | _ => known) []

/-- The operations that are reported; an error where false is returned. -/
def hasIncompleteOperations : Except String (List Bytes) :=
  wal.readEntries.map fun entries => ((operationComplete entries).filter fun known => !known.2).map Prod.fst

/-- What is returned, and the two results; the type is left as it was where no entry tells it. -/
def getOperationDetails (operationId : Bytes) (opTypeOut : WALOperation) : Bool × WALOperation × List WALEntry :=
  match wal.readEntries with
  | .error _ => (false, opTypeOut, [])
  | .ok entries =>
    let steps := entries.filter fun entry => entry.operationId = operationId
    let begins := steps.filter fun entry => entry.type = .beginOperation
    (!begins.isEmpty, (begins.flatMap fun entry => entry.stepName.take 1).foldl (fun _ byte => .ofByte byte) opTypeOut,
      steps)

end CWalletWAL

inductive WalCall where
  | beginOperation (op : WALOperation) (generatedId : Bytes) (time : UInt64)
  | checkpoint (operationId stepName stepData : Bytes) (time : UInt64)
  | commit (operationId : Bytes) (time : UInt64)
  | rollback (operationId : Bytes) (time : UInt64)

namespace WalCall

def apply (wal : CWalletWAL) : WalCall → CWalletWAL
  | beginOperation op generatedId time => (wal.beginOperation op generatedId time).2
  | checkpoint operationId stepName stepData time => (wal.checkpoint operationId stepName stepData time).2
  | commit operationId time => (wal.commit operationId time).2
  | rollback operationId time => (wal.rollback operationId time).2

def Fits : WalCall → Prop
  | beginOperation _ generatedId _ => generatedId.length ≤ WALEntry.maxOperationIdLength
  | checkpoint operationId stepName stepData _ => operationId.length ≤ WALEntry.maxOperationIdLength ∧
      stepName.length ≤ WALEntry.maxStepNameLength ∧ stepData.length ≤ WALEntry.maxStepDataLength
  | commit operationId _ | rollback operationId _ => operationId.length ≤ WALEntry.maxOperationIdLength

def finishes : WalCall → Bool
  | commit _ _ | rollback _ _ => true
  | _ => false

end WalCall

/-- An operation that has been begun and not committed or rolled back, with its checkpoints in order. -/
structure PendingOperation where
  id : Bytes
  type : WALOperation
  checkpoints : List (Bytes × Bytes)

namespace PendingOperation

def after (pending : List PendingOperation) : WalCall → List PendingOperation
  | .beginOperation op generatedId _ => pending ++ [⟨generatedId, op, []⟩]
  | .checkpoint operationId stepName stepData _ => pending.map fun operation =>
      if operation.id = operationId then { operation with checkpoints :=
        operation.checkpoints ++ [(stepName, stepData)] } else operation
  | .commit operationId _ | .rollback operationId _ => pending.filter fun operation => operation.id ≠ operationId

end PendingOperation

def pendingAfter (calls : List WalCall) : List PendingOperation := calls.foldl PendingOperation.after []

namespace CWalletWAL

def run (calls : List WalCall) : CWalletWAL := calls.foldl WalCall.apply (opened none)

/-- The log reports the operations and gives their types and checkpoints. -/
def Remembers (wal : CWalletWAL) (pending : List PendingOperation) : Prop :=
  (∃ reported, wal.hasIncompleteOperations = .ok reported ∧ ∀ id, id ∈ reported ↔
    ∃ operation ∈ pending, operation.id = id) ∧
    ∀ operation ∈ pending, ∀ opTypeOut, ∃ steps, wal.getOperationDetails operation.id opTypeOut =
      (true, operation.type, steps) ∧
      (steps.filter fun entry => entry.type = .checkpoint).map
        (fun entry => (entry.stepName, entry.data)) = operation.checkpoints

/-- What the file can be: gone, begun with a header while an operation is pending, or begun with a checkpoint. -/
inductive Logged (pending : List PendingOperation) : Option Bytes → Prop where
  | absent : Logged pending none
  | headed (rest : Bytes) (unfinished : pending ≠ []) : Logged pending (some (header 0 ++ rest))
  | bare (rest : Bytes) (long : 15 ≤ rest.length) : Logged pending (some (0x02 :: rest))

variable {pending : List PendingOperation} {wal : CWalletWAL} {calls : List WalCall}

lemma writeEntry_eq (entry : WALEntry) (ready : wal.walInitialized = true)
    (id : entry.operationId.length ≤ WALEntry.maxOperationIdLength)
    (name : entry.stepName.length ≤ WALEntry.maxStepNameLength)
    (data : entry.data.length ≤ WALEntry.maxStepDataLength) :
    ∃ rest : Bytes, 15 ≤ rest.length ∧
      wal.writeEntry entry = (true, { wal with walFile := some (wal.walFile.getD [] ++ entry.type.byte :: rest) }) := by
  obtain ⟨rest, long, written⟩ : ∃ rest : Bytes, 15 ≤ rest.length ∧ entry.serialize = entry.type.byte :: rest := by
    rw [WALEntry.serialize, if_neg (not_lt.mpr id), if_neg (not_lt.mpr name), if_neg (not_lt.mpr data)]
    refine ⟨_, ?_, cons_append⟩
    simp
    omega
  refine ⟨rest, long, ?_⟩
  rw [writeEntry, ready, written]
  rfl

lemma Logged.append {file : Bytes} {next : List PendingOperation} (logged : Logged pending (some file)) (more : Bytes)
    (kept : pending ≠ [] → next ≠ []) : Logged next (some (file ++ more)) := by
  cases logged with
  | headed rest unfinished =>
    exact .headed _ (kept unfinished)
  | bare rest long => exact .bare _ (by simp; omega)

lemma finish_eq {type : WALEntryType} {operationId : Bytes} {time : UInt64} (ready : wal.walInitialized = true)
    (fits : operationId.length ≤ WALEntry.maxOperationIdLength) :
    (finish type wal operationId time).2 = opened none := by
  obtain ⟨rest, -, written⟩ := writeEntry_eq (.stamped type operationId [] [] time) ready fits
    (Nat.zero_le _) (Nat.zero_le _)
  simp [finish, written, ready, opened]

/-- After the calls the log is ready and its file has one of the three forms; it is gone exactly after a commit or
a rollback. -/
structure LogKept (calls : List WalCall) (pending : List PendingOperation) (wal : CWalletWAL) : Prop where
  ready : wal.walInitialized = true
  logged : Logged pending wal.walFile
  gone : wal.walFile = none ↔ ∀ last ∈ calls.getLast?, last.finishes = true

lemma beginOperation_eq (ready : wal.walInitialized = true) (op : WALOperation) {generatedId : Bytes} (time : UInt64)
    (fits : generatedId.length ≤ WALEntry.maxOperationIdLength) :
    ∃ rest, (wal.beginOperation op generatedId time).2 =
      { wal with walFile := some (wal.walFile.getD (header 0) ++ rest) } := by
  have created : (if wal.walFile.isNone then wal.writeHeader 0 else wal) =
      { wal with walFile := some (wal.walFile.getD (header 0)) } := by
    obtain ⟨initialized, _ | file⟩ := wal <;> rfl
  obtain ⟨rest, -, written⟩ := @writeEntry_eq { wal with walFile := some (wal.walFile.getD (header 0)) }
    (.stamped .beginOperation generatedId [op.byte] [] time) ready fits (Nat.le_of_ble_eq_true rfl) (Nat.zero_le _)
  rw [beginOperation, if_neg (by simp [ready])]
  rw [created, written]
  exact ⟨_, rfl⟩

lemma LogKept.apply (kept : LogKept calls pending wal) (call : WalCall) (fits : call.Fits) :
    LogKept (calls ++ [call]) (PendingOperation.after pending call) (call.apply wal) := by
  obtain ⟨ready, logged, -⟩ := kept
  cases call with
  | beginOperation op generatedId time =>
    have begun : PendingOperation.after pending (.beginOperation op generatedId time) ≠ [] := concat_ne_nil _ _
    obtain ⟨rest, stepped⟩ := beginOperation_eq ready op time fits
    rw [WalCall.apply, stepped]
    refine ⟨ready, ?_, by simp [WalCall.finishes]⟩
    cases isFile : wal.walFile with
    | none => exact .headed rest begun
    | some file => exact (isFile ▸ logged).append rest fun _ => begun
  | checkpoint operationId stepName stepData time =>
    obtain ⟨id, name, data⟩ := fits
    obtain ⟨rest, long, written⟩ :=
      writeEntry_eq (.stamped .checkpoint operationId stepName stepData time) ready id name data
    rw [WalCall.apply, checkpoint, written]
    refine ⟨ready, ?_, by simp [WalCall.finishes]⟩
    cases isFile : wal.walFile with
    | none => exact .bare rest long
    | some file => exact (isFile ▸ logged).append _ (by simp [PendingOperation.after])
  | commit operationId time | rollback operationId time =>
    simp only [WalCall.apply, commit, rollback, finish_eq ready fits]
    exact ⟨rfl, .absent, by simp [WalCall.finishes, opened]⟩

lemma kept_run (fits : ∀ call ∈ calls, call.Fits) : LogKept calls (pendingAfter calls) (run calls) := by
  induction calls using reverseRecOn with
  | nil => exact ⟨rfl, .absent, by simp [run, opened]⟩
  | append_singleton calls call ih =>
    rw [pendingAfter, run, foldl_concat, foldl_concat]
    exact (ih fun earlier inside => fits earlier (by simp [inside])).apply call (fits call (by simp))

lemma readEntries_header (rest : Bytes) : (opened (some (header 0 ++ rest))).readEntries = .ok [] := by
  simp [readEntries, opened, header, walMagic, walVersion, encode, value, readFrom, maxWalEntries]

lemma readEntries_bare {rest : Bytes} (long : 15 ≤ rest.length) :
    (opened (some (0x02 :: rest))).readEntries = .error "Invalid magic number" := by
  simp [readEntries, opened, walMagic, not_lt.mpr (Nat.succ_le_succ long)]

lemma remembers_of_empty (empty : wal.readEntries = .ok []) : wal.Remembers pending ↔ pending = [] := by
  have reports : wal.hasIncompleteOperations = .ok [] := by
    rw [hasIncompleteOperations, empty]
    rfl
  constructor
  · rintro ⟨⟨reported, isReported, exactly⟩, -⟩
    cases reports.symm.trans isReported
    refine eq_nil_iff_forall_not_mem.mpr fun operation inside => ?_
    exact not_mem_nil ((exactly operation.id).mpr ⟨operation, inside, rfl⟩)
  · rintro rfl
    exact ⟨⟨[], reports, by simp⟩, by simp⟩

/-- A new log remembers the pending operations only if there are none and the last call removed the file. -/
theorem reopened_remembers_iff (calls : List WalCall) (fits : ∀ call ∈ calls, call.Fits) :
    (opened (run calls).walFile).Remembers (pendingAfter calls) ↔
      pendingAfter calls = [] ∧ ∀ last ∈ calls.getLast?, last.finishes = true := by
  obtain ⟨-, logged, gone⟩ := kept_run fits
  rw [← gone]
  generalize (run calls).walFile = file at logged
  cases logged with
  | absent => simp [@remembers_of_empty _ (opened none) rfl]
  | headed rest unfinished => simp [remembers_of_empty (readEntries_header rest), unfinished]
  | bare rest long =>
    refine iff_of_false ?_ (by simp)
    rintro ⟨⟨reported, isReported, -⟩, -⟩
    rw [hasIncompleteOperations, readEntries_bare long] at isReported
    cases isReported

theorem remembers_after_commit :
    (opened (run [.beginOperation .walletEncryption [97] 7, .checkpoint [97] [115] [1, 2] 8,
      .commit [97] 9]).walFile).Remembers [] :=
  (reopened_remembers_iff _ (by simp [WalCall.Fits, WALEntry.maxOperationIdLength, WALEntry.maxStepNameLength,
    WALEntry.maxStepDataLength])).mpr ⟨rfl, by simp [WalCall.finishes]⟩

/-- An encryption that has been begun is not reported. -/
theorem begun_operation_forgotten :
    (pendingAfter [.beginOperation .walletEncryption [97] 7]).map PendingOperation.id = [[97]] ∧
      (opened (run [.beginOperation .walletEncryption [97] 7]).walFile).hasIncompleteOperations = .ok [] := by
  exact ⟨rfl, rfl⟩

end CWalletWAL

end Dilithion
