import Dilithion.Node.UtxoUndo

/-! Undo records as bytes. `ApplyBlock` writes a record, `UndoBlock` and `ReadUndoBlock` read it through a pointer; both
readers return what was written exactly if the sizes fit and nothing follows. -/

namespace Dilithion

open Lib Lib.Decoder Lib.PointerReader Lib.Ledger LittleEndian List

structure RecordTexts where
  outpoint : String
  nValue : String
  scriptLength : String
  scriptPubKey : Nat → String
  heightCoinbase : String

def undoBlockTexts : RecordTexts where
  outpoint := "Insufficient undo data (outpoint)"
  nValue := "Insufficient undo data (nValue)"
  scriptLength := "Insufficient undo data (script length)"
  scriptPubKey _ := "Insufficient undo data (scriptPubKey)"
  heightCoinbase := "Insufficient undo data (height/coinbase)"

def readUndoTexts (i : Nat) : RecordTexts where
  outpoint := "Truncated at outpoint " ++ toString i
  nValue := "Truncated at nValue " ++ toString i
  scriptLength := "Truncated at script_len " ++ toString i
  scriptPubKey script_len := "Truncated at scriptPubKey " ++ toString i ++ " (len=" ++ toString script_len ++ ")"
  heightCoinbase := "Truncated at height/coinbase " ++ toString i

def readRecordAt (texts : RecordTexts) (data : Bytes) (finish ptr : Nat) : Parse (SpentRecord × Nat) := do
  need finish ptr (32 + 4) texts.outpoint
  let hash ← fetch data ptr 32
  let n ← fetch data (ptr + 32) 4
  need finish (ptr + 36) 8 texts.nValue
  let nValue ← fetch data (ptr + 36) 8
  need finish (ptr + 44) 4 texts.scriptLength
  let script_len ← fetch data (ptr + 44) 4
  need finish (ptr + 48) (value script_len) (texts.scriptPubKey (value script_len))
  let scriptPubKey ← fetch data (ptr + 48) (value script_len)
  let behind := ptr + 48 + value script_len
  need finish behind (4 + 1) texts.heightCoinbase
  let height ← fetch data behind 4
  let coinbase ← fetch data (behind + 4) 1
  return ((⟨Uint256.ofNat (value hash), UInt32.ofNat (value n)⟩,
    { out := ⟨UInt64.ofNat (value nValue), scriptPubKey⟩
      nHeight := UInt32.ofNat (value height)
      fCoinBase := decide (value coinbase ≠ 0) }), behind + 5)

def readRecordsAt (texts : Nat → RecordTexts) (data : Bytes) (finish : Nat) : Nat → Nat → Nat →
    Parse (List SpentRecord × Nat)
  | _, 0, ptr => return ([], ptr)
  | i, count + 1, ptr => do
    let (record, next) ← readRecordAt (texts i) data finish ptr
    let (others, last) ← readRecordsAt texts data finish (i + 1) count next
    return (record :: others, last)

def openUndo (H : HashFunctions) (undoValue : Bytes) (tooSmall mismatch : String) : Parse Nat := do
  if undoValue.length < 4 + 32 then throw (.malformed tooSmall)
  let payload ← fetch undoValue 0 (undoValue.length - 32)
  let checksum ← fetch undoValue (undoValue.length - 32) 32
  if (H.sha3_256 payload).data ≠ checksum then throw (.malformed mismatch)
  let spentCount ← fetch undoValue 0 4
  return value spentCount

def undoBlockRecords (H : HashFunctions) (undoValue : Bytes) : Parse (List SpentRecord) := do
  let spentCount ← openUndo H undoValue ("Invalid undo data (too small: " ++ toString undoValue.length ++ " bytes)")
    "Undo data checksum mismatch - CORRUPTION DETECTED!"
  let (records, _) ← readRecordsAt (fun _ => undoBlockTexts) undoValue (undoValue.length - 32) 0 spentCount 4
  return records

def minRecordBytes : Nat := 32 + 4 + 8 + 4 + 4 + 1

def readUndoRecords (H : HashFunctions) (blockHash : Uint256) (undoValue : Bytes) : Parse (List SpentRecord) := do
  let spentCount ← openUndo H undoValue
    ("Undo entry too small (" ++ toString undoValue.length ++ " bytes) for block " ++ blockHash.getHex)
    ("Checksum mismatch for block " ++ blockHash.getHex)
  if undoValue.length - 32 - 4 < spentCount * minRecordBytes then
    throw (.malformed ("Spent count " ++ toString spentCount ++
      " exceeds payload bounds for block " ++ blockHash.getHex))
  let (records, ptr) ← readRecordsAt readUndoTexts undoValue (undoValue.length - 32) 0 spentCount 4
  if ptr ≠ undoValue.length - 32 then
    throw (.malformed ("Trailing bytes after spentCount=" ++ toString spentCount ++ " for block " ++ blockHash.getHex))
  return records

/-- `ReadUndoBlock`; a failed call leaves the result empty. -/
def CUTXOSet.readUndoBlock (H : HashFunctions) (s : CUTXOSet) (blockHash : Uint256) : Option (List SpentRecord) :=
  if ¬ s.isOpen then none
  else match s.db.lookup (undoKey blockHash) with
    | none => none
    | some undoValue => (readUndoRecords H blockHash undoValue).toOption

section

variable {data : Bytes} {finish ptr : Nat} (short : finish ≤ data.length)

include short

lemma readRecordAt_tracks (texts : RecordTexts) (inside : ptr ≤ finish) :
    Tracks data finish (readRecordAt texts data finish ptr) (deserializeUndoEntry.run (window data finish ptr)) := by
  refine Tracks.need short inside fun room => ?_
  rw [fetch_ok (by omega), fetch_ok (by omega)]
  refine Tracks.need short room fun room => ?_
  rw [fetch_ok (by omega)]
  refine Tracks.need short room fun room => ?_
  rw [fetch_ok (by omega)]
  refine Tracks.need short room fun room => ?_
  rw [fetch_ok (by omega)]
  refine Tracks.need short room fun room => ?_
  rw [fetch_ok (by omega), fetch_ok (by omega)]
  -- The decoder takes the outpoint and the last five bytes in one piece each.
  have hash : (((data.drop ptr).take (32 + 4)).take 32) = (data.drop ptr).take 32 := by simp [take_take]
  have index : (((data.drop ptr).take (32 + 4)).drop 32) = (data.drop (ptr + 32)).take 4 := by simp [drop_take]
  have height : ∀ behind, (((data.drop behind).take (4 + 1)).take 4) = (data.drop behind).take 4 := by simp [take_take]
  have coinbase : ∀ behind, (((data.drop behind).take (4 + 1)).drop 4) =
    (data.drop (behind + 4)).take 1 := by simp [drop_take]
  rw [hash, index, height, coinbase]
  exact Tracks.pure room

lemma readRecordsAt_tracks (texts : Nat → RecordTexts) (i count : Nat) (inside : ptr ≤ finish) :
    Tracks data finish (readRecordsAt texts data finish i count ptr)
      ((many (fun _ => deserializeUndoEntry) i count).run (window data finish ptr)) := by
  induction count generalizing i ptr with
  | zero => exact Tracks.pure inside
  | succ count ih =>
    refine Tracks.bind (readRecordAt_tracks short (texts i) inside) fun record next reached => ?_
    exact Tracks.bind (ih (i + 1) reached) fun others last stopped => Tracks.pure stopped

end

def heldRecords (undoValue : Bytes) : Except String (List SpentRecord × Bytes) :=
  (many (fun _ => deserializeUndoEntry) 0 (value (undoValue.take 4))).run (window undoValue (undoValue.length - 32) 4)

lemma openUndo_eq (H : HashFunctions) (undoValue : Bytes) (tooSmall mismatch : String) :
    openUndo H undoValue tooSmall mismatch =
      match verifyUndoChecksum H undoValue with
      | .valid => .ok (value (undoValue.take 4))
      | .sizeInvalid => .error (.malformed tooSmall)
      | .checksumMismatch => .error (.malformed mismatch) := by
  unfold openUndo verifyUndoChecksum
  by_cases small : undoValue.length < 4 + 32
  · rw [if_pos small, if_pos small]
    rfl
  · rw [if_neg small, if_neg small, fetch_ok (by omega), fetch_ok (by omega), fetch_ok (by omega)]
    have last : (undoValue.drop (undoValue.length - 32)).take 32 = undoValue.drop (undoValue.length - 32) :=
      take_of_length_le (by rw [length_drop]; omega)
    rw [last]
    by_cases same : (H.sha3_256 (undoValue.take (undoValue.length - 32))).data = undoValue.drop (undoValue.length - 32)
    · simp [bind, Except.bind, pure, Except.pure, same]
    · simp [bind, Except.bind, same, throw, throwThe, MonadExceptOf.throw]

variable {H : HashFunctions} {undoValue : Bytes}

/-- The counted records are there: the checksum is right and each record is complete. -/
def Holds (H : HashFunctions) (undoValue : Bytes) (records : List SpentRecord) (surplus : Bytes) : Prop :=
  verifyUndoChecksum H undoValue = .valid ∧ heldRecords undoValue = .ok (records, surplus)

variable {records : List SpentRecord} {surplus : Bytes}

lemma Holds.unique {records' : List SpentRecord} {surplus' : Bytes} (holds : Holds H undoValue records surplus)
    (holds' : Holds H undoValue records' surplus') : records = records' ∧ surplus = surplus' := by
  have same := holds.2.symm.trans holds'.2
  cases same
  exact ⟨rfl, rfl⟩

/-- Whatever the texts, the counted records are read, and a record cut short is reported. -/
lemma readRecordsAt_held (texts : Nat → RecordTexts) (valid : verifyUndoChecksum H undoValue = .valid) :
    Tracks undoValue (undoValue.length - 32)
      (readRecordsAt texts undoValue (undoValue.length - 32) 0 (value (undoValue.take 4)) 4)
        (heldRecords undoValue) := by
  have large : ¬ undoValue.length < 36 := fun small => by simp [verifyUndoChecksum, small] at valid
  exact readRecordsAt_tracks (by omega) texts 0 _ (by omega)

lemma not_holds_of_invalid (invalid : verifyUndoChecksum H undoValue ≠ .valid)
    (records : List SpentRecord) (surplus : Bytes) :
    ¬ Holds H undoValue records surplus := fun holds => invalid holds.1

lemma not_holds_of_error {error : String} (cut : heldRecords undoValue = .error error) (records : List SpentRecord)
    (surplus : Bytes) : ¬ Holds H undoValue records surplus := by
  intro holds
  have same := cut.symm.trans holds.2
  cases same

/-- `UndoBlock` reads the counted records, whatever is behind them. -/
lemma undoBlockRecords_cases (H : HashFunctions) (undoValue : Bytes) :
    (∃ records surplus, Holds H undoValue records surplus ∧ undoBlockRecords H undoValue = .ok records) ∨
      (∀ records surplus, ¬ Holds H undoValue records surplus) ∧
      ∃ text, undoBlockRecords H undoValue = .error (.malformed text) := by
  rw [undoBlockRecords, openUndo_eq]
  cases verdict : verifyUndoChecksum H undoValue with
  | sizeInvalid => exact .inr ⟨not_holds_of_invalid (by simp [verdict]), _, rfl⟩
  | checksumMismatch => exact .inr ⟨not_holds_of_invalid (by simp [verdict]), _, rfl⟩
  | valid =>
    rcases (readRecordsAt_held (fun _ => undoBlockTexts) verdict).outcome with
      ⟨records, ptr, -, parsed, held⟩ | ⟨text, error, parsed, cut⟩
    · refine .inl ⟨records, _, ⟨verdict, held⟩, ?_⟩
      show (readRecordsAt _ _ _ _ _ _ >>= _) = _
      rw [parsed]
      rfl
    · refine .inr ⟨not_holds_of_error cut, text, ?_⟩
      show (readRecordsAt _ _ _ _ _ _ >>= _) = _
      rw [parsed]
      rfl

lemma consumes_undoEntry : Consumes deserializeUndoEntry fun _ front => minRecordBytes ≤ front.length := by
  refine Consumes.bind (Consumes.takeBytes _ _) fun outpoint first isFirst => Consumes.bind (Consumes.takeBytes _ _)
    fun nValue second isSecond => Consumes.bind (Consumes.takeBytes _ _) fun length third isThird => ?_
  refine Consumes.bind (Consumes.takeBytes _ _) fun script fourth isFourth => Consumes.bind (Consumes.takeBytes _ _)
    fun rest fifth isFifth => Consumes.pure ?_
  simp only [length_append, isFirst.2, isSecond.2, isThird.2, isFifth.2, minRecordBytes]
  omega

lemma count_le_of_held (held : heldRecords undoValue = .ok (records, surplus)) :
    value (undoValue.take 4) * minRecordBytes ≤ undoValue.length - 32 - 4 := by
  obtain ⟨front, split, long⟩ := Consumes.many_length consumes_undoEntry _ _ _ _ _ held
  have size := congrArg length split
  rw [length_window (by omega), length_append] at size
  omega

/-- `ReadUndoBlock` reads the counted records if they fill the record. -/
lemma readUndoRecords_cases (H : HashFunctions) (blockHash : Uint256) (undoValue : Bytes) :
    (∃ records, Holds H undoValue records [] ∧ readUndoRecords H blockHash undoValue = .ok records) ∨
      (∀ records, ¬ Holds H undoValue records []) ∧ ∃ text, readUndoRecords H blockHash undoValue =
        .error (.malformed text) := by
  rw [readUndoRecords, openUndo_eq]
  cases verdict : verifyUndoChecksum H undoValue with
  | sizeInvalid => exact .inr ⟨fun _ => not_holds_of_invalid (by simp [verdict]) _ _, _, rfl⟩
  | checksumMismatch => exact .inr ⟨fun _ => not_holds_of_invalid (by simp [verdict]) _ _, _, rfl⟩
  | valid =>
    rcases (readRecordsAt_held readUndoTexts verdict).outcome with
      ⟨records, ptr, inside, parsed, held⟩ | ⟨text, error, parsed, cut⟩
    · have bound := count_le_of_held held
      simp only [bind, Except.bind]
      rw [if_neg (by omega), parsed]
      have left := length_window (Nat.sub_le undoValue.length 32) ptr
      by_cases all : ptr = undoValue.length - 32
      · have none_ : window undoValue (undoValue.length - 32) ptr = [] := length_eq_zero_iff.mp (by omega)
        rw [none_] at held
        exact .inl ⟨records, ⟨verdict, held⟩, if_neg (not_not.mpr all)⟩
      · refine .inr ⟨fun other holds => ?_, _, if_pos all⟩
        rw [(holds.unique ⟨verdict, held⟩).2.symm, length_nil] at left
        omega
    · refine .inr ⟨fun _ => not_holds_of_error cut _ _, ?_⟩
      simp only [bind, Except.bind]
      rw [parsed]
      split
      · exact ⟨_, rfl⟩
      · exact ⟨_, rfl⟩

def HasSurplus (H : HashFunctions) (undoValue : Bytes) : Prop :=
  ∃ records surplus, Holds H undoValue records surplus ∧ surplus ≠ []

/-- Both readers refuse the bytes as malformed, or both read the same list. -/
def ReadersAgree (H : HashFunctions) (blockHash : Uint256) (undoValue : Bytes) : Prop :=
  (∃ records, undoBlockRecords H undoValue = .ok records ∧ readUndoRecords H blockHash undoValue = .ok records) ∨
    ∃ text text', undoBlockRecords H undoValue = .error (.malformed text) ∧
      readUndoRecords H blockHash undoValue = .error (.malformed text')

lemma readersAgree_iff (H : HashFunctions) (blockHash : Uint256) (undoValue : Bytes) :
    ReadersAgree H blockHash undoValue ↔ ¬ HasSurplus H undoValue := by
  rcases undoBlockRecords_cases H undoValue with ⟨records, surplus, holds, undo⟩ | ⟨nothing, text, undo⟩
  · rcases readUndoRecords_cases H blockHash undoValue with ⟨found, full, read⟩ | ⟨notFull, text, read⟩
    · obtain ⟨rfl, rfl⟩ := holds.unique full
      refine iff_of_true (.inl ⟨records, undo, read⟩) ?_
      rintro ⟨other, left, held, some_⟩
      exact some_ (held.unique full).2
    · refine iff_of_false ?_ (not_not.mpr ⟨records, surplus, holds, ?_⟩)
      · rintro (⟨other, -, accepted⟩ | ⟨text, text', refused, -⟩)
        · rw [read] at accepted
          cases accepted
        · rw [undo] at refused
          cases refused
      · rintro rfl
        exact notFull records holds
  · rcases readUndoRecords_cases H blockHash undoValue with ⟨found, full, read⟩ | ⟨notFull, text', read⟩
    · exact absurd full (nothing found [])
    · refine iff_of_true (.inr ⟨text, text', undo, read⟩) ?_
      rintro ⟨records, surplus, holds, -⟩
      exact nothing records surplus holds

lemma readRecords_of_ok {i count : Nat} {data rest : Bytes}
    (read : (many (fun _ => deserializeUndoEntry) i count).run data = .ok (records, rest)) :
    readRecords count data = (records, true) := by
  induction count generalizing i data records with
  | zero =>
    cases read
    rfl
  | succ count ih =>
    obtain ⟨record, behind, first, later⟩ := run_bind_eq_ok read
    obtain ⟨others, last, more, done⟩ := run_bind_eq_ok later
    cases done
    rw [readRecords, first]
    simp [ih more]

lemma readRecords_of_error {i count : Nat} {data : Bytes} {error : String}
    (cut : (many (fun _ => deserializeUndoEntry) i count).run data = .error error) :
    (readRecords count data).2 = false := by
  induction count generalizing i data error with
  | zero => cases cut
  | succ count ih =>
    cases first : deserializeUndoEntry.run data with
    | error text => simp [readRecords, first]
    | ok result =>
      obtain ⟨record, behind⟩ := result
      rw [many, run_bind_ok first] at cut
      simp only [readRecords, first]
      cases later : (many (fun _ => deserializeUndoEntry) (i + 1) count).run behind with
      | error text => exact ih later
      | ok result =>
        rw [run_bind_ok later] at cut
        cases cut

lemma heldRecords_eq (valid : verifyUndoChecksum H undoValue = .valid) :
    heldRecords undoValue = (many (fun _ => deserializeUndoEntry) 0
      (value ((undoValue.take (undoValue.length - 32)).take 4))).run
        ((undoValue.take (undoValue.length - 32)).drop 4) := by
  have large : ¬ undoValue.length < 36 := fun small => by simp [verifyUndoChecksum, small] at valid
  rw [heldRecords, window, take_take, Nat.min_eq_left (by omega)]

/-- `UndoBlock` restores what it reads, and fails if the record is malformed. -/
lemma undoWithRecord_reads (env : Env) (writes : CUTXOSet.Writes) (s : CUTXOSet)
    {block : CBlock} (storedUnder : Uint256)
    (undoValue : Bytes) (nonempty : blockTransactions block ≠ []) :
    (∀ records, undoBlockRecords env.hashes undoValue = .ok records →
      s.undoWithRecord env writes (blockTransactions block) storedUnder undoValue =
        (finishUndo (undoStaged env s block records) storedUnder).commit writes) ∧
      ∀ stop, undoBlockRecords env.hashes undoValue = .error stop →
        (s.undoWithRecord env writes (blockTransactions block) storedUnder undoValue).1 = false := by
  rcases undoBlockRecords_cases env.hashes undoValue with ⟨records, surplus, holds, undo⟩ | ⟨nothing, text, undo⟩
  · refine ⟨fun found read => ?_, fun stop refused => ?_⟩
    · rw [undo] at read
      cases read
      have decoded : decodeUndo undoValue = (records, true) := readRecords_of_ok (heldRecords_eq holds.1 ▸ holds.2)
      rw [undoWithRecord_eq holds.1 nonempty, decoded, if_pos rfl]
    · rw [undo] at refused
      cases refused
  · refine ⟨fun found read => ?_, fun stop refused => ?_⟩
    · rw [undo] at read
      cases read
    · by_cases valid : verifyUndoChecksum env.hashes undoValue = .valid
      · cases held : heldRecords undoValue with
        | ok result => exact absurd ⟨valid, held⟩ (nothing result.1 result.2)
        | error error =>
          have cut : (decodeUndo undoValue).2 = false := readRecords_of_error (heldRecords_eq valid ▸ held)
          rw [undoWithRecord_eq valid nonempty, cut]
          rfl
      · rw [CUTXOSet.undoWithRecord, if_pos valid]

def Fits (spent : List SpentRecord) : Prop := spent.length < 2 ^ 32 ∧ ∀ record ∈ spent, record.2.Short

lemma Fits.holds {spent : List SpentRecord} (fits : Fits spent) (H : HashFunctions) :
    Holds H (undoData H spent) spent [] := by
  have valid := verifyUndoChecksum_undoData H spent
  have count : value ((undoPayload spent).take 4) = spent.length := by
    rw [undoPayload, take_left' (by simp), value_serializeUint32, UInt32.toNat_ofNat_of_lt' fits.1]
  refine ⟨valid, ?_⟩
  rw [heldRecords_eq valid, take_undoData, count]
  have reads : Reads (many (fun _ => deserializeUndoEntry) 0 spent.length) (spent.flatMap serializeUndoEntry) spent :=
    Reads.many (fun record member => deserialize_serializeUndoEntry (fits.2 record member)) 0
  have alone := reads []
  rwa [append_nil] at alone

lemma Holds.fits (holds : Holds H undoValue records surplus) : Fits records := by
  have count : records.length = value (undoValue.take 4) := Yields.many_length _ _ _ _ _ _ holds.2
  have bound := value_lt (undoValue.take 4)
  have size : (undoValue.take 4).length ≤ 4 := length_take_le _ _
  refine ⟨?_, Yields.many (fun _ => deserializeUndoEntry_yields) _ _ _ _ _ holds.2⟩
  rw [count]
  exact bound.trans_le (Nat.pow_le_pow_right (by decide) size)

/-- The outpoints a block spends: the inputs of all transactions but the first, in order. -/
def blockSpends (transactions : List CTransaction) : List COutPoint :=
  transactions.tail.flatMap fun tx => tx.vin.map CTxIn.prevout

variable {env : Env} {after : Applying}

lemma spendInputs_spent {vin : List CTxIn} {applying : Applying}
    (done : vin.foldlM (spendInput env) applying = .ok after) :
    after.spent.map Prod.fst = applying.spent.map Prod.fst ++ vin.map CTxIn.prevout := by
  induction vin generalizing applying with
  | nil =>
    cases done
    simp
  | cons txin rest ih =>
    obtain ⟨next, step, done⟩ := bind_eq_ok_iff.mp done
    have here : next.spent.map Prod.fst = applying.spent.map Prod.fst ++ [txin.prevout] := by
      unfold spendInput at step
      split at step
      · cases step
      · cases step
        simp
    rw [ih done, here, map_cons, append_assoc, singleton_append]

variable {height : UInt32}

lemma applyTransaction_spent {isCoinbase : Bool} {tx : CTransaction} {applying : Applying}
    (done : applyTransaction env height isCoinbase applying tx = .ok after) :
    after.spent.map Prod.fst = applying.spent.map Prod.fst ++ if isCoinbase then [] else tx.vin.map CTxIn.prevout := by
  obtain ⟨middle, spending, done⟩ := bind_eq_ok_iff.mp done
  cases done
  cases isCoinbase with
  | true =>
    cases spending
    simp
  | false =>
    have spends : tx.vin.foldlM (spendInput env) applying = .ok middle := spending
    have spent := spendInputs_spent spends
    simpa using spent

lemma applyTransactions_spent {transactions : List CTransaction} {set : CUTXOSet}
    (done : applyTransactions env height ⟨⟨set, []⟩, []⟩ transactions = .ok after) :
    after.spent.map Prod.fst = blockSpends transactions := by
  have later : ∀ {rest : List CTransaction} {applying : Applying}, rest.foldlM
      (applyTransaction env height false) applying = .ok after →
      after.spent.map Prod.fst = applying.spent.map Prod.fst ++ rest.flatMap fun tx => tx.vin.map CTxIn.prevout := by
    intro rest
    induction rest with
    | nil =>
      intro applying done
      cases done
      simp
    | cons tx rest ih =>
      intro applying done
      obtain ⟨next, step, done⟩ := bind_eq_ok_iff.mp done
      rw [ih done, applyTransaction_spent step]
      simp
  cases transactions with
  | nil =>
    cases done
    rfl
  | cons coinbase rest =>
    obtain ⟨next, first, done⟩ := bind_eq_ok_iff.mp done
    rw [later done, applyTransaction_spent first]
    simp [blockSpends]

lemma undoBlockRecords_inside (H : HashFunctions) (undoValue : Bytes) :
    undoBlockRecords H undoValue ≠ .error .outside := by
  intro outside
  rcases undoBlockRecords_cases H undoValue with ⟨records, surplus, -, read⟩ | ⟨-, text, refused⟩
  · cases read.symm.trans outside
  · cases refused.symm.trans outside

lemma readUndoRecords_inside (H : HashFunctions) (blockHash : Uint256) (undoValue : Bytes) :
    readUndoRecords H blockHash undoValue ≠ .error .outside := by
  intro outside
  rcases readUndoRecords_cases H blockHash undoValue with ⟨records, -, read⟩ | ⟨-, text, refused⟩
  · cases read.symm.trans outside
  · cases refused.symm.trans outside

lemma undoBlockRecords_ok_iff :
    undoBlockRecords H undoValue = .ok records ↔ ∃ surplus, Holds H undoValue records surplus := by
  rcases undoBlockRecords_cases H undoValue with ⟨found, left, holds, read⟩ | ⟨nothing, text, refused⟩
  · rw [read]
    constructor
    · rintro ⟨⟩
      exact ⟨left, holds⟩
    · rintro ⟨surplus, held⟩
      rw [(held.unique holds).1]
  · rw [refused]
    exact iff_of_false (by simp) fun ⟨surplus, holds⟩ => nothing records surplus holds

lemma readUndoRecords_ok_iff {blockHash : Uint256} :
    readUndoRecords H blockHash undoValue = .ok records ↔ Holds H undoValue records [] := by
  rcases readUndoRecords_cases H blockHash undoValue with ⟨found, holds, read⟩ | ⟨nothing, text, refused⟩
  · rw [read]
    constructor
    · rintro ⟨⟩
      exact holds
    · exact fun held => by rw [(held.unique holds).1]
  · rw [refused]
    exact iff_of_false (by simp) (nothing records)

/-- Both readers find the spent entries in the record written for them, if they fit it. -/
lemma readers_undoData_iff (H : HashFunctions) (blockHash : Uint256) (spent : List SpentRecord) :
    undoBlockRecords H (undoData H spent) = .ok spent ∧ readUndoRecords H blockHash (undoData H spent) =
      .ok spent ↔ Fits spent := by
  rw [undoBlockRecords_ok_iff, readUndoRecords_ok_iff]
  constructor
  · rintro ⟨-, holds⟩
    exact holds.fits
  · intro fits
    exact ⟨⟨[], fits.holds H⟩, fits.holds H⟩

lemma applyBlock_accepted {writes : CUTXOSet.Writes} {s s' : CUTXOSet} {block : CBlock}
    {blockHash : Uint256} (accepted : s.applyBlock env writes block height blockHash = (true, s')) :
    blockTransactions block ≠ [] ∧
      ∃ applying, applyTransactions env height ⟨⟨s, []⟩, []⟩ (blockTransactions block) = .ok applying ∧
        (applying.finish env height blockHash).commit writes = (true, s') := by
  unfold CUTXOSet.applyBlock at accepted
  split at accepted
  · cases accepted
  · split at accepted
    · cases accepted
    · rename_i nonempty
      split at accepted
      · cases accepted
      · rename_i applying done
        exact ⟨by simpa using nonempty, applying, done, accepted⟩

/-- The bytes an accepted block writes as its undo record read back as the entries it spent, in both
readers, exactly if the record's 32-bit fields hold them. On any bytes both readers stay inside the
buffer, and they agree exactly if no byte is left behind the last record; what `UndoBlock` restores is
what it reads. -/
theorem undo_record_codec (env : Env) :
    (∀ (writes : CUTXOSet.Writes) (s s' : CUTXOSet) (block : CBlock) (height : UInt32) (blockHash : Uint256),
      s.applyBlock env writes block height blockHash = (true, s') →
      ∃ applying, applyTransactions env height ⟨⟨s, []⟩, []⟩ (blockTransactions block) = .ok applying ∧
        (applying.finish env height blockHash).batch.getLast? =
          some (.put (undoKey blockHash) (undoData env.hashes applying.spent)) ∧
        applying.spent.map Prod.fst = blockSpends (blockTransactions block) ∧
        (s.Coherent → (blockEvents env.hashes height block).length ≤ env.maxCacheSize →
          spentRecords s.stored s.stored (blockEvents env.hashes height block) = some applying.spent ∧
            s'.db.lookup (undoKey blockHash) = some (undoData env.hashes applying.spent)) ∧
        (undoBlockRecords env.hashes (undoData env.hashes applying.spent) = .ok applying.spent ∧
          readUndoRecords env.hashes blockHash (undoData env.hashes applying.spent) =
            .ok applying.spent ↔ Fits applying.spent)) ∧
    (∀ blockHash undoValue, undoBlockRecords env.hashes undoValue ≠ .error .outside ∧
      readUndoRecords env.hashes blockHash undoValue ≠ .error .outside ∧
      (ReadersAgree env.hashes blockHash undoValue ↔ ¬ HasSurplus env.hashes undoValue)) ∧
    ∀ (writes : CUTXOSet.Writes) (s : CUTXOSet) (block : CBlock) (storedUnder : Uint256) (undoValue : Bytes),
      blockTransactions block ≠ [] →
      (∀ records, undoBlockRecords env.hashes undoValue = .ok records →
        s.undoWithRecord env writes (blockTransactions block) storedUnder undoValue =
          (finishUndo (undoStaged env s block records) storedUnder).commit writes) ∧
      ∀ stop, undoBlockRecords env.hashes undoValue = .error stop →
        (s.undoWithRecord env writes (blockTransactions block) storedUnder undoValue).1 = false := by
  refine ⟨fun writes s s' block height blockHash accepted => ?_, fun blockHash undoValue =>
    ⟨undoBlockRecords_inside _ _, readUndoRecords_inside _ _ _, readersAgree_iff _ _ _⟩,
    fun writes s block storedUnder undoValue => undoWithRecord_reads env writes s storedUnder undoValue⟩
  obtain ⟨nonempty, applying, done, committed⟩ := applyBlock_accepted accepted
  refine ⟨applying, done, by simp [Applying.finish], applyTransactions_spent done, fun coherent room => ?_,
    readers_undoData_iff env.hashes blockHash applying.spent⟩
  have follows := applyTransactions_follows coherent height (blockTransactions block) room
  rw [done] at follows
  obtain ⟨changes, applies⟩ := follows
  have isOpen : (applying.finish env height blockHash).set.isOpen = true := applies.stages.isOpen
  have same := Staged.commit_eq_true isOpen committed
  subst same
  have applied : Applied env s block height blockHash changes applying.spent _ := applies.committed nonempty
  exact ⟨applied.records, applied.undo⟩

theorem paying_record_reads_back : (fundedSet.applyBlock chainEnv {} payingBlock 2 (.ofNat 7)).1 = true ∧
    undoBlockRecords chainEnv.hashes (undoData chainEnv.hashes [(fundedOutPoint, fundedEntry)]) =
      .ok [(fundedOutPoint, fundedEntry)] := by
  have accepted : (fundedSet.applyBlock chainEnv {} payingBlock 2 (.ofNat 7)).1 = true := by decide +kernel
  obtain ⟨applying, done, -, -, -, reads⟩ :=
    (undo_record_codec chainEnv).1 {} fundedSet _ payingBlock 2 (.ofNat 7) (Prod.fst_eq_iff.mp accepted)
  have spent : (applyTransactions chainEnv 2 ⟨⟨fundedSet, []⟩, []⟩ (blockTransactions payingBlock)).toOption.map
      Applying.spent =
      some [(fundedOutPoint, fundedEntry)] := by decide +kernel
  rw [done] at spent
  have same : applying.spent = [(fundedOutPoint, fundedEntry)] := Option.some.inj spent
  rw [same] at reads
  exact ⟨accepted, (reads.mpr ⟨by decide, by simp [CUTXOEntry.Short, fundedEntry]⟩).1⟩

def paddedRecord : Bytes :=
  List.replicate 5 0 ++ (Uint256.ofNat 0xd568e9f193aceeb1bd1a4525dcc93353bfdfa646fba0c06fc4505ad20e2a7067).data

def paddedEnv : Env where
  hashes := .ofTable
    [(rewardTx.serialize, .ofNat 0xa951c761ccf84b3da96d92fda7ade8f149a3a24abd4c1774705bd3f56280df33),
     (List.replicate 5 0, .ofNat 0xd568e9f193aceeb1bd1a4525dcc93353bfdfa646fba0c06fc4505ad20e2a7067)]

/-- `UndoBlock` succeeds with the padded record, `ReadUndoBlock` refuses it. -/
theorem padded_record_divides_readers :
    let stored : CUTXOSet := { emptySet with db := AList.singleton (undoKey (.ofNat 7)) paddedRecord }
    (stored.undoBlock paddedEnv {} (blockOf .null [rewardTx]) (.ofNat 7)).1 = true ∧
      stored.readUndoBlock paddedEnv.hashes (.ofNat 7) = none ∧
      ¬ ReadersAgree paddedEnv.hashes (.ofNat 7) paddedRecord := by
  refine ⟨by rfl, by rfl, ?_⟩
  rw [readersAgree_iff, not_not]
  exact ⟨[], [0], ⟨by rfl, by decide⟩, by decide⟩

end Dilithion
