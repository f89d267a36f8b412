import Dilithion.Lib.InputStream
import Dilithion.Chain.WalProtocol

/-! The bytes of the reorganisation log. `WriteWAL` truncates the file and writes it anew, so that a crash
leaves any number of its first bytes; the next start reads what is there and deletes a file whose
checksum does not fit. The fields are read into local variables that hold whatever was in memory. -/

namespace Dilithion

open Lib Reader LittleEndian ReorgPhase Uint256 List

def ReorgPhase.byte : ReorgPhase → UInt8
  | .initialized => 0
  | .disconnecting => 1
  | .connecting => 2
  | .completed => 3

/-- The members of the log as they lie in memory; a phase read from a file may be any byte. -/
structure WalImage where
  phase : UInt8
  forkPointHash : Bytes
  currentTipHash : Bytes
  targetTipHash : Bytes
  disconnectHashes : List Bytes
  connectHashes : List Bytes
  disconnectedCount : Bytes
  connectedCount : Bytes
  deriving DecidableEq

def WalRecord.image (record : WalRecord) : WalImage where
  phase := record.phase.byte
  forkPointHash := record.forkPointHash.data
  currentTipHash := record.currentTipHash.data
  targetTipHash := record.targetTipHash.data
  disconnectHashes := record.disconnectHashes.map data
  connectHashes := record.connectHashes.map data
  disconnectedCount := serializeUint32 record.disconnectedCount
  connectedCount := serializeUint32 record.connectedCount

def WalImage.counted (hashes : List Bytes) : Bytes := encode 4 hashes.length ++ hashes.flatten

/-- What the checksum covers; `WriteWAL` writes the same bytes. -/
def WalImage.payload (image : WalImage) : Bytes :=
  [image.phase] ++ (image.forkPointHash ++
    (image.currentTipHash ++ (image.targetTipHash ++ (counted image.disconnectHashes ++
    (counted image.connectHashes ++ (image.disconnectedCount ++ image.connectedCount))))))

/-- `DILITHION_WAL_1`, with the zero that ends the literal. -/
def CReorgWAL.magic : Bytes := [68, 73, 76, 73, 84, 72, 73, 79, 78, 95, 87, 65, 76, 95, 49, 0]

def CReorgWAL.version : Bytes := serializeUint32 1

def WalImage.checksum (H : HashFunctions) (image : WalImage) : Bytes := (H.sha3_256 image.payload).data

def WalImage.encode (H : HashFunctions) (image : WalImage) : Bytes :=
  CReorgWAL.magic ++ (CReorgWAL.version ++ (image.payload ++ image.checksum H))

abbrev Field (size : Nat) := { bytes : Bytes // bytes.length = size }

/-- What the local variables of `ReadWAL` hold before they are read into. -/
structure WalMemory where
  magic : Field 16
  version : Field 4
  phase : UInt8
  disconnectCount : Field 4
  connectCount : Field 4
  checksum : Field 32

def blankHash : Bytes := List.replicate 32 0

namespace CReorgWAL

/-- The hashes are read one by one into memory reserved for all of them. A count from a torn file may ask for more than
there is; that the allocation then throws is left out: like a failed read, it ends the start without a report. -/
def readHashes (count : Field 4) : Reader (List Bytes) := do
  let size ← read count.1
  readEach (List.replicate (value size) blankHash)

/-- Everything before the checksum; nothing if the magic or the version is wrong. -/
def readFields (memory : WalMemory) : Reader (Option WalImage) := do
  let magic ← read memory.magic.1
  if magic ≠ CReorgWAL.magic then return none
  else
    let version ← read memory.version.1
    if version ≠ CReorgWAL.version then return none
    else
      let phase ← read [memory.phase]
      let forkPointHash ← read blankHash
      let currentTipHash ← read blankHash
      let targetTipHash ← read blankHash
      let disconnectHashes ← readHashes memory.disconnectCount
      let connectHashes ← readHashes memory.connectCount
      let disconnectedCount ← read [0, 0, 0, 0]
      let connectedCount ← read [0, 0, 0, 0]
      return some ⟨phase.headD 0, forkPointHash, currentTipHash, targetTipHash, disconnectHashes, connectHashes,
        disconnectedCount, connectedCount⟩

def readWAL (H : HashFunctions) (memory : WalMemory) (file : Bytes) : Bool × UInt8 :=
  match (readFields memory).run ⟨file, false⟩ with
  | (none, _) => (false, initialized.byte)
  | (some image, stream) =>
    let stored := ((read memory.checksum.1).run stream).1
    (decide (stored = image.checksum H), image.phase)

end CReorgWAL

/-- How the next start goes: what lies in memory, whether the file can be opened, and removed. -/
structure Startup where
  memory : WalMemory
  opens : Bool
  removes : Bool

structure OpenedWal where
  phase : UInt8
  file : Option Bytes

namespace Startup

variable (H : HashFunctions)

def construct (startup : Startup) : Option Bytes → OpenedWal
  | none => ⟨initialized.byte, none⟩
  | some file =>
    let left := if startup.removes then none else some file
    if !startup.opens then ⟨initialized.byte, left⟩
    else match CReorgWAL.readWAL H startup.memory file with
      | (true, phase) => if phase ≠ completed.byte then ⟨phase, some file⟩ else ⟨completed.byte, left⟩
      | (false, phase) => ⟨phase, left⟩

end Startup

def OpenedWal.hasIncompleteReorg (wal : OpenedWal) : Bool :=
  wal.file.isSome && decide (wal.phase ≠ completed.byte) && decide (wal.phase ≠ initialized.byte)

structure WalRecord.Small (record : WalRecord) : Prop where
  disconnect : record.disconnectHashes.length < 2 ^ 32
  connect : record.connectHashes.length < 2 ^ 32

namespace CReorgWAL

variable {H : HashFunctions} {record : WalRecord}

lemma readHashes_whole (count : Field 4) (hashes : List Uint256) (small : hashes.length < 2 ^ 32) (rest : Bytes) :
    (readHashes count).run ⟨WalImage.counted (hashes.map data) ++ rest, false⟩ = (hashes.map data, ⟨rest, false⟩) := by
  have size : (encode 4 (hashes.map data).length).length = count.1.length := by
    rw [encode_length, count.2]
  have value : value (encode 4 (hashes.map data).length) = hashes.length := by
    rw [length_map]
    exact value_encode small
  have sizes : (hashes.map data).map length = (replicate hashes.length blankHash).map length := by
    rw [map_replicate]
    exact eq_replicate_iff.mpr ⟨by simp, by simp [blankHash]⟩
  rw [readHashes, WalImage.counted, append_assoc, run_bind (read_whole size _), value]
  exact readEach_whole sizes rest

lemma readFields_whole (memory : WalMemory) (small : record.Small) :
    (readFields memory).run ⟨record.image.encode H, false⟩ = (some record.image, ⟨record.image.checksum H, false⟩) := by
  unfold WalImage.encode WalImage.payload readFields
  rw [run_bind (read_whole (by rw [memory.magic.2]; rfl) _), if_neg (by simp)]
  rw [run_bind (read_whole (by rw [memory.version.2]; rfl) _), if_neg (by simp)]
  simp only [append_assoc]
  have phase : [record.image.phase].length = [memory.phase].length := rfl
  have hash : ∀ hash : Uint256, hash.data.length = blankHash.length := size
  rw [run_bind (read_whole phase _)]
  unfold WalRecord.image
  rw [run_bind (read_whole (hash record.forkPointHash) _)]
  rw [run_bind (read_whole (hash record.currentTipHash) _)]
  rw [run_bind (read_whole (hash record.targetTipHash) _)]
  rw [run_bind (readHashes_whole memory.disconnectCount _ small.disconnect _)]
  rw [run_bind (readHashes_whole memory.connectCount _ small.connect _)]
  rfl

lemma checksum_length (H : HashFunctions) (image : WalImage) : (image.checksum H).length = 32 := size _

lemma readWAL_whole (H : HashFunctions) (memory : WalMemory) (small : record.Small) :
    readWAL H memory (record.image.encode H) = (true, record.phase.byte) := by
  have size : (record.image.checksum H).length = memory.checksum.1.length :=
    (checksum_length H record.image).trans memory.checksum.2.symm
  have stored := read_whole size []
  rw [append_nil] at stored
  unfold readWAL
  rw [readFields_whole memory small]
  dsimp only
  rw [stored, decide_eq_true rfl]
  rfl

lemma steady_readHashes (count : Field 4) : Reader.Steady (readHashes count) :=
  .bind (.read count.1) fun _ => .readEach _

lemma steady_readFields (memory : WalMemory) : Reader.Steady (readFields memory) := by
  refine .bind (.read _) fun magic => ?_
  split
  · exact .pure none
  refine .bind (.read _) fun version => ?_
  split
  · exact .pure none
  refine .bind (.read _) fun phase => .bind (.read _) fun fork => .bind (.read _) fun current =>
    .bind (.read _) fun target => ?_
  refine .bind (steady_readHashes _) fun off => .bind (steady_readHashes _) fun on => ?_
  exact .bind (.read _) fun disconnected => .bind (.read _) fun connected => .pure _

/-- Memory that happens to be zero, except for the variable of the checksum. -/
def blankMemory (checksum : Field 32) : WalMemory :=
  ⟨⟨List.replicate 16 0, rfl⟩, ⟨List.replicate 4 0, rfl⟩, 0, ⟨List.replicate 4 0, rfl⟩,
    ⟨List.replicate 4 0, rfl⟩, checksum⟩

def otherChecksum (byte : UInt8) : Field 32 := ⟨List.replicate 31 0 ++ [byte + 1], rfl⟩

lemma getLast?_otherChecksum {byte : UInt8} {front : Bytes} (less : front.length < (otherChecksum byte).1.length) :
    (front ++ (otherChecksum byte).1.drop front.length).getLast? = some (byte + 1) := by
  have some_ : (otherChecksum byte).1.drop front.length ≠ [] := by
    rw [ne_eq, drop_eq_nil_iff]
    omega
  rw [getLast?_append_of_ne_nil _ some_, getLast?_drop, if_neg (by omega)]
  simp [otherChecksum]

lemma getLast?_checksum (H : HashFunctions) (image : WalImage) :
    (image.checksum H).getLast? = some ((image.checksum H).getLastD 0) := by
  have some_ : image.checksum H ≠ [] := ne_nil_of_length_pos (by rw [checksum_length]; decide)
  rw [getLastD_eq_getLast?, getLast?_eq_some_getLast some_, Option.getD_some]

/-- Whatever is missing at the end of the file, the start may come upon memory with which it is rejected. -/
lemma readWAL_torn (H : HashFunctions) (small : record.Small) {kept : Nat}
    (torn : kept < (record.image.encode H).length) :
    ∃ memory, (readWAL H memory ((record.image.encode H).take kept)).1 = false := by
  have parts := take_append_drop kept (record.image.encode H)
  have lost : (record.image.encode H).drop kept ≠ [] := by
    rw [ne_eq, drop_eq_nil_iff]
    omega
  cases fields : (readFields (blankMemory (otherChecksum 0))).run ⟨(record.image.encode H).take kept, false⟩ with
  | mk answer stream =>
    cases answer with
    | none => exact ⟨blankMemory (otherChecksum 0), by rw [readWAL, fields]⟩
    | some image =>
      let last := (image.checksum H).getLastD 0
      refine ⟨blankMemory (otherChecksum last), ?_⟩
      -- the checksum is read last, so that its variable does not matter to the other fields
      have same : (readFields (blankMemory (otherChecksum last))).run ⟨(record.image.encode H).take kept, false⟩ =
          (some image, stream) := fields
      have whole := readFields_whole (H := H) (blankMemory (otherChecksum last)) small
      rw [← parts] at whole
      have size : (otherChecksum last).1.length = (record.image.checksum H).length :=
        (otherChecksum last).2.trans (checksum_length H _).symm
      have positive : 0 < (otherChecksum last).1.length := by rw [(otherChecksum last).2]; decide
      obtain ⟨front, less, stored⟩ :=
        (steady_readFields (blankMemory (otherChecksum last))).read_torn lost positive whole size
      rw [same] at stored
      have rejected : ((read (otherChecksum last).1).run stream).1 ≠ image.checksum H := by
        rw [stored]
        intro agree
        have ends := congrArg getLast? agree
        rw [getLast?_otherChecksum less, getLast?_checksum] at ends
        simp [last] at ends
      unfold readWAL
      rw [same]
      exact decide_eq_false rejected

def Represents (H : HashFunctions) (disk : Option Bytes) : Option WalFile → Prop
  | none => disk = none
  | some (.record contents) => contents.Small ∧ disk = some (contents.image.encode H)
  | some .unreadable => ∃ (contents : WalRecord) (kept : Nat), contents.Small ∧
      kept < (contents.image.encode H).length ∧
      disk = some ((contents.image.encode H).take kept)

/-- The next start reports a reorganisation, whatever lies in memory and whether or not files can be removed. -/
def Reported (H : HashFunctions) (disk : Option Bytes) : Prop :=
  ∀ startup : Startup, startup.opens = true → (startup.construct H disk).hasIncompleteReorg = true

lemma construct_whole (H : HashFunctions) (small : record.Small) {startup : Startup} (opens : startup.opens = true) :
    (startup.construct H (some (record.image.encode H))).hasIncompleteReorg =
      (record.phase == .disconnecting || record.phase == .connecting) := by
  unfold Startup.construct
  simp only [opens, readWAL_whole H startup.memory small]
  cases record.phase <;> simp [OpenedWal.hasIncompleteReorg, byte]

variable {disk : Option Bytes}

lemma reported_iff {wal : CReorgWAL} (represents : Represents H disk wal.file) :
    Reported H disk ↔ wal.leavesIncomplete = true := by
  unfold leavesIncomplete
  have blank : ∃ startup : Startup, startup.opens = true := ⟨⟨blankMemory (otherChecksum 0), true, true⟩, rfl⟩
  cases file : wal.file with
  | none =>
    rw [file] at represents
    subst represents
    obtain ⟨startup, opens⟩ := blank
    exact iff_of_false (fun reported => by cases reported startup opens) (by simp)
  | some contents =>
    rw [file] at represents
    cases contents with
    | record contents =>
      obtain ⟨small, rfl⟩ := represents
      constructor
      · intro reported
        obtain ⟨startup, opens⟩ := blank
        exact (construct_whole H small opens).symm.trans (reported startup opens)
      · intro incomplete startup opens
        rw [construct_whole H small opens]
        exact incomplete
    | unreadable =>
      obtain ⟨contents, kept, small, torn, rfl⟩ := represents
      obtain ⟨memory, rejected⟩ := readWAL_torn H small torn
      refine iff_of_false (fun reported => ?_) (by simp)
      -- the file is rejected and removed
      have found := reported ⟨memory, true, true⟩ rfl
      unfold Startup.construct at found
      cases answer : readWAL H memory ((contents.image.encode H).take kept) with
      | mk accepted phase =>
        rw [answer] at rejected
        cases rejected
        simp [answer, OpenedWal.hasIncompleteReorg] at found

variable (wal : CReorgWAL)

/-- A phase call is refused, or it changes the counters and the phase and writes the log. The file plays
no part in either. -/
lemma phaseCall_cases (call : PhaseCall) :
    (∀ file write, phaseCall { wal with file := file } call write = (false, { wal with file := file })) ∨
    ∃ current : WalRecord,
      (current.phase == .disconnecting || current.phase == .connecting) = true ∧
      current.disconnectHashes = wal.current.disconnectHashes ∧ current.connectHashes = wal.current.connectHashes ∧
      ∀ file write, phaseCall { wal with file := file } call write =
        writeWAL { wal with current := current, file := file } write := by
  cases call with
  | enterDisconnectPhase =>
    cases active : wal.active with
    | false => exact .inl fun file write => by simp [phaseCall, enterDisconnectPhase]
    | true =>
      exact .inr ⟨{ wal.current with phase := .disconnecting, disconnectedCount := 0 }, rfl, rfl,
          rfl, fun file write => by
        simp [phaseCall, enterDisconnectPhase]⟩
  | updateDisconnectProgress count =>
    by_cases refused : (!wal.active || wal.current.phase != .disconnecting) = true
    · exact .inl fun file write => by rw [phaseCall, updateDisconnectProgress, if_pos refused]
    · have phase : wal.current.phase = .disconnecting := by
        rw [Bool.or_eq_true, not_or, bne_iff_ne, not_not] at refused
        exact refused.2
      exact .inr ⟨{ wal.current with disconnectedCount := count }, by simp [phase], rfl, rfl, fun file write => by
        rw [phaseCall, updateDisconnectProgress, if_neg refused]⟩
  | enterConnectPhase =>
    cases active : wal.active with
    | false => exact .inl fun file write => by simp [phaseCall, enterConnectPhase]
    | true =>
      exact .inr ⟨{ wal.current with phase := .connecting, connectedCount := 0 }, rfl, rfl, rfl, fun file write => by
        simp [phaseCall, enterConnectPhase]⟩
  | updateConnectProgress count =>
    by_cases refused : (!wal.active || wal.current.phase != .connecting) = true
    · exact .inl fun file write => by rw [phaseCall, updateConnectProgress, if_pos refused]
    · have phase : wal.current.phase = .connecting := by
        rw [Bool.or_eq_true, not_or, bne_iff_ne, not_not] at refused
        exact refused.2
      exact .inr ⟨{ wal.current with connectedCount := count }, by simp [phase], rfl, rfl, fun file write => by
        rw [phaseCall, updateConnectProgress, if_neg refused]⟩

def lastOpened (wal : CReorgWAL) : List (PhaseCall × WalWrite) → Option WalWrite
  | [] => none
  | (call, write) :: rest =>
    (lastOpened (wal.phaseCall call write).2 rest).or
      (if (wal.phaseCall call .written).1 && decide (write ≠ .notOpened) then some write else none)

lemma leavesIncomplete_phases (calls : List (PhaseCall × WalWrite)) :
    (wal.phases calls).leavesIncomplete = (wal.lastOpened calls).elim wal.leavesIncomplete fun write =>
      decide (write = .written) := by
  induction calls generalizing wal with
  | nil => rfl
  | cons call rest ih =>
    obtain ⟨call, write⟩ := call
    have step := ih (wal.phaseCall call write).2
    change ((wal.phaseCall call write).2.phases rest).leavesIncomplete = _
    rw [step, lastOpened]
    cases (wal.phaseCall call write).2.lastOpened rest with
    | some later => rfl
    | none =>
      rcases phaseCall_cases wal call with refused | ⟨current, phase, -, -, accepted⟩
      · simp [refused wal.file]
      · rw [accepted wal.file, accepted wal.file]
        cases write with
        | written => simpa [writeWAL, leavesIncomplete] using phase
        | notOpened => simp [writeWAL, leavesIncomplete]
        | torn => simp [writeWAL, leavesIncomplete]

inductive DiskWrite where
  | written
  | notOpened
  | torn (kept : Nat)
  deriving DecidableEq

def DiskWrite.onDisk (bytes : Bytes) (before : Option Bytes) : DiskWrite → Option Bytes
  | .written => some bytes
  | .notOpened => before
  | .torn kept => some (bytes.take kept)

def DiskWrite.outcome (size : Nat) : DiskWrite → WalWrite
  | .written => .written
  | .notOpened => .notOpened
  | .torn kept => if size ≤ kept then .written else .torn

/-- The file after phase calls. The members in memory do not depend on what became of the writes. -/
def diskAfter (H : HashFunctions) : CReorgWAL → Option Bytes → List (PhaseCall × DiskWrite) → Option Bytes
  | _, disk, [] => disk
  | wal, disk, (call, write) :: rest =>
    match wal.phaseCall call .written with
    | (false, _) => diskAfter H wal disk rest
    | (true, next) => diskAfter H next (write.onDisk (next.current.image.encode H) disk) rest

/-- Magic, version, phase, three hashes, two counted lists, two counters and the checksum. -/
def fileSize (disconnect connect : Nat) : Nat := 165 + 32 * (disconnect + connect)

lemma counted_length (hashes : List Uint256) : (WalImage.counted (hashes.map data)).length =
    4 + 32 * hashes.length := by
  have total : (hashes.map data).flatten.length = 32 * hashes.length := by
    induction hashes with
    | nil => rfl
    | cons hash rest ih =>
      rw [map_cons, flatten_cons, length_append, hash.size, length_cons]
      omega
  rw [WalImage.counted, length_append, encode_length, total]

lemma encode_length (H : HashFunctions) (record : WalRecord) :
    (record.image.encode H).length = fileSize record.disconnectHashes.length record.connectHashes.length := by
  have magic : CReorgWAL.magic.length = 16 := rfl
  simp only [WalImage.encode, WalImage.payload, length_append, checksum_length, magic, version, WalRecord.image,
    length_singleton, data_length, counted_length, serializeUint32_length, fileSize]
  omega

lemma represents_writeWAL (represents : Represents H disk wal.file) (small : wal.current.Small) (write : DiskWrite) :
    Represents H (write.onDisk (wal.current.image.encode H) disk)
      (wal.writeWAL (write.outcome (fileSize wal.current.disconnectHashes.length
        wal.current.connectHashes.length))).2.file := by
  cases write with
  | written => exact ⟨small, rfl⟩
  | notOpened => exact represents
  | torn kept =>
    rw [DiskWrite.outcome, ← encode_length H wal.current]
    split
    next enough => exact ⟨small, by rw [DiskWrite.onDisk, take_of_length_le enough]⟩
    next short => exact ⟨wal.current, kept, small, not_le.mp short, rfl⟩

lemma writeWAL_twin (file : Option WalFile) (write : WalWrite) :
    ∃ other, (writeWAL { wal with file := file } .written) = (true, { (wal.writeWAL write).2 with file := other }) ∧
      (wal.writeWAL write).2.current = wal.current := by
  cases write with
  | written => exact ⟨_, rfl, rfl⟩
  | notOpened => exact ⟨_, rfl, rfl⟩
  | torn => exact ⟨_, rfl, rfl⟩

/-- Along phase calls the file stays the one the abstract log speaks of. -/
lemma represents_phases (represents : Represents H disk wal.file) (small : wal.current.Small)
    {size : Nat} (isSize : size = fileSize wal.current.disconnectHashes.length wal.current.connectHashes.length)
    (file : Option WalFile) (calls : List (PhaseCall × DiskWrite)) :
    Represents H (diskAfter H { wal with file := file } disk calls)
      (wal.phases (calls.map fun call => (call.1, call.2.outcome size))).file := by
  induction calls generalizing wal disk file with
  | nil => exact represents
  | cons call rest ih =>
    obtain ⟨call, write⟩ := call
    rw [diskAfter]
    change Represents H _ ((wal.phaseCall call (write.outcome size)).2.phases
      (rest.map fun call => (call.1, call.2.outcome size))).file
    rcases phaseCall_cases wal call with refused | ⟨current, -, sameOff, sameOn, accepted⟩
    · rw [refused file, refused wal.file]
      exact ih wal represents small isSize file
    · have smallNow : current.Small := ⟨sameOff ▸ small.disconnect, sameOn ▸ small.connect⟩
      have isSizeNow : size = fileSize current.disconnectHashes.length
        current.connectHashes.length := by rw [sameOff, sameOn, isSize]
      have step := represents_writeWAL { wal with current := current } represents smallNow write
      obtain ⟨other, twin, same⟩ := writeWAL_twin { wal with current := current } file (write.outcome size)
      rw [accepted file, accepted wal.file, twin]
      rw [← isSizeNow] at step
      have later := ih _ step (by rw [same]; exact smallNow) (by rw [same]; exact isSizeNow) other
      rw [same] at later
      dsimp only
      rw [same]
      exact later

/-- After a reorganisation has begun, the next start is sure to report it exactly if some write of a phase
opened the file and the last one that did wrote it to its end. -/
theorem reported_after_crash_iff (H : HashFunctions) (wal begun : CReorgWAL) (forkPoint currentTip targetTip : Uint256)
    (disconnectBlocks connectBlocks : List Uint256) (fewOff : disconnectBlocks.length < 2 ^ 32)
    (fewOn : connectBlocks.length < 2 ^ 32)
    (started : wal.beginReorg forkPoint currentTip targetTip disconnectBlocks connectBlocks .written = (true, begun))
    (calls : List (PhaseCall × DiskWrite)) :
    Reported H (diskAfter H begun (some (begun.current.image.encode H)) calls) ↔
      begun.lastOpened (calls.map fun call =>
        (call.1, call.2.outcome (fileSize disconnectBlocks.length connectBlocks.length))) =
        some .written := by
  have intent : begun = { begun with
      current := ⟨.initialized, forkPoint, currentTip, targetTip, disconnectBlocks, connectBlocks, 0, 0⟩
      file := some (.record ⟨.initialized, forkPoint, currentTip, targetTip, disconnectBlocks,
          connectBlocks, 0, 0⟩) } := by
    unfold beginReorg at started
    split at started
    · cases started
    · cases started
      rfl
  rw [intent]
  generalize isRecord : (⟨.initialized, forkPoint, currentTip, targetTip, disconnectBlocks, connectBlocks, 0, 0⟩ :
    WalRecord) = record
  have small : record.Small := isRecord ▸ ⟨fewOff, fewOn⟩
  have represents := represents_phases (H := H) { begun with current := record, file := some (.record record) } ⟨small,
    rfl⟩ small (isRecord ▸ rfl : fileSize disconnectBlocks.length connectBlocks.length = _)
    (some (.record record)) calls
  rw [reported_iff represents, leavesIncomplete_phases]
  have unreported : leavesIncomplete { begun with current := record, file := some (.record record) } = false := by
    rw [← isRecord]
    rfl
  cases lastOpened { begun with current := record, file := some (.record record) } _ with
  | none => simp [unreported]
  | some write => simp

def idleWal : CReorgWAL := ⟨false, ⟨.completed, .null, .null, .null, [], [], 0, 0⟩, none⟩

def begunWal : CReorgWAL := (idleWal.beginReorg (.ofNat 1) (.ofNat 2) (.ofNat 3) [.ofNat 2] [.ofNat 3] .written).2

/-- A crash between two writes, when the old block has been disconnected. -/
theorem reported_after_disconnect : Reported (.ofTable []) (diskAfter (.ofTable []) begunWal
    (some (begunWal.current.image.encode (.ofTable [])))
      [(.enterDisconnectPhase, .written), (.updateDisconnectProgress 1, .written)]) :=
  (reported_after_crash_iff (.ofTable []) idleWal begunWal (.ofNat 1) (.ofNat 2) (.ofNat 3) [.ofNat 2]
    [.ofNat 3] (by decide) (by decide)
    rfl [(.enterDisconnectPhase, .written), (.updateDisconnectProgress 1, .written)]).mpr (by decide)

/-- A crash after the file was truncated: the next start takes it for a damaged file, deletes it and
reports nothing. -/
theorem crash_in_write_unreported :
    let disk := diskAfter (.ofTable []) begunWal (some (begunWal.current.image.encode (.ofTable [])))
      [(.enterDisconnectPhase, .written), (.updateDisconnectProgress 1, .torn 0)]
    let startup : Startup := ⟨blankMemory (otherChecksum 0), true, true⟩
    disk = some [] ∧ (startup.construct (.ofTable []) disk).file = none ∧
      (startup.construct (.ofTable []) disk).hasIncompleteReorg = false := by
  decide

end CReorgWAL

end Dilithion
