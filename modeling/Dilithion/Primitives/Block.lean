import Dilithion.Lib.Decoder

/-! Hashes, block headers and blocks. A hash is its 32 bytes; a block carries its transactions as
the byte string the header commits to. SHA3-256 and RandomX are parameters. -/

namespace Dilithion

open Lib LittleEndian

abbrev Bytes := List UInt8

structure Uint256 where
  data : Bytes
  size : data.length = 32
  deriving DecidableEq

namespace Uint256

def ofNat (value : Nat) : Uint256 := ⟨encode 32 value, encode_length 32 value⟩

variable (hash : Uint256)

def toNat : Nat := value hash.data

def null : Uint256 := ofNat 0

def isNull : Bool := hash.data.all (fun byte => byte == 0)

/-- `operator<` on `uint256`: `memcmp`, so the first byte in memory decides. -/
def memLess : Bytes → Bytes → Bool
  | [], _ => false
  | _ :: _, [] => false
  | a :: as, b :: bs => if a < b then true else if b < a then false else memLess as bs

def less (a b : Uint256) : Bool := memLess a.data b.data

def hexDigits : List Char := "0123456789abcdef".toList

def getHex : String :=
  String.ofList (hash.data.reverse.flatMap fun byte =>
    [hexDigits.getD (byte.toNat / 16) '0', hexDigits.getD (byte.toNat % 16) '0'])

@[simp] lemma data_length : hash.data.length = 32 := hash.size

lemma ext_data {a b : Uint256} (same : a.data = b.data) : a = b := by
  cases a
  cases same
  rfl

lemma toNat_injective : Function.Injective toNat := by
  intro a b same
  exact ext_data (value_injective (by simp) same)

lemma toNat_lt : hash.toNat < 256 ^ 32 := by
  simpa [toNat] using value_lt hash.data

end Uint256

structure HashFunctions where
  sha3_256 : Bytes → Uint256
  randomx : Bytes → Uint256

def HashFunctions.ofTable (sha3 : List (Bytes × Uint256)) : HashFunctions where
  sha3_256 data := (sha3.lookup data).getD .null
  randomx _ := .null

def lengthHash : HashFunctions where
  sha3_256 data := .ofNat data.length
  randomx _ := .null

structure CBlockHeader where
  nVersion : Int32
  hashPrevBlock : Uint256
  hashMerkleRoot : Uint256
  nTime : UInt32
  nBits : UInt32
  nNonce : UInt32
  vdfOutput : Uint256
  vdfProofHash : Uint256
  deriving DecidableEq

structure CBlock extends CBlockHeader where
  vtx : Bytes
  deriving DecidableEq

section

variable (value : UInt32)

def serializeUint32 : Bytes := encode 4 value.toNat

def serializeUint64 (value : UInt64) : Bytes := encode 8 value.toNat

namespace CBlockHeader

def vdfVersion : Int32 := 4

def isVDFBlock (header : CBlockHeader) : Bool := decide (vdfVersion ≤ header.nVersion)

def serializeHeader (header : CBlockHeader) : Bytes :=
  serializeUint32 header.nVersion.toUInt32 ++ header.hashPrevBlock.data ++ header.hashMerkleRoot.data ++
    serializeUint32 header.nTime ++ serializeUint32 header.nBits ++ serializeUint32 header.nNonce ++
    (if header.isVDFBlock then header.vdfOutput.data ++ header.vdfProofHash.data else [])

def getHash (H : HashFunctions) (header : CBlockHeader) : Uint256 :=
  if header.isVDFBlock then H.sha3_256 header.serializeHeader else H.randomx header.serializeHeader

end CBlockHeader

@[simp] lemma serializeUint32_length : (serializeUint32 value).length = 4 :=
  encode_length 4 value.toNat

@[simp] lemma serializeUint64_length (value : UInt64) : (serializeUint64 value).length = 8 :=
  encode_length 8 value.toNat

lemma value_serializeUint32 : LittleEndian.value (serializeUint32 value) = value.toNat :=
  value_encode value.toNat_lt

lemma value_serializeUint64 (value : UInt64) : LittleEndian.value (serializeUint64 value) = value.toNat :=
  value_encode value.toNat_lt

@[simp] lemma ofNat_value_serializeUint32 : UInt32.ofNat (LittleEndian.value (serializeUint32 value)) = value := by
  rw [value_serializeUint32, UInt32.ofNat_toNat]

@[simp] lemma ofNat_value_serializeUint64 (value : UInt64) :
    UInt64.ofNat (LittleEndian.value (serializeUint64 value)) = value := by
  rw [value_serializeUint64, UInt64.ofNat_toNat]

lemma serializeUint32_injective {a b : UInt32} (same : serializeUint32 a = serializeUint32 b) : a = b := by
  rw [← ofNat_value_serializeUint32 a, ← ofNat_value_serializeUint32 b, same]

end

/-! Transactions and their byte format. Values, indices and sequence numbers have the widths of the
wire format; a decoder returns the decoded value with the bytes it has not consumed, or the text of
the error it reports. -/

open Lib.Decoder Yields

structure COutPoint where
  hash : Uint256
  n : UInt32
  deriving DecidableEq

structure CTxIn where
  prevout : COutPoint
  scriptSig : Bytes
  nSequence : UInt32
  deriving DecidableEq

structure CTxOut where
  nValue : UInt64
  scriptPubKey : Bytes
  deriving DecidableEq

structure CTransaction where
  nVersion : Int32
  vin : List CTxIn
  vout : List CTxOut
  nLockTime : UInt32
  deriving DecidableEq

namespace COutPoint

def isNull (outpoint : COutPoint) : Bool := outpoint.hash.isNull && outpoint.n == 0xFFFFFFFF

end COutPoint

def serializeCompactSize (size : Nat) : Bytes :=
  if size < 253 then [UInt8.ofNat size]
  else if size ≤ 0xFFFF then 253 :: encode 2 size
  else if size ≤ 0xFFFFFFFF then 254 :: encode 4 size
  else 255 :: encode 8 size

def serializeScript (script : Bytes) : Bytes := serializeCompactSize script.length ++ script

def CTxIn.serialize (txin : CTxIn) : Bytes :=
  txin.prevout.hash.data ++ serializeUint32 txin.prevout.n ++ serializeScript txin.scriptSig ++
    serializeUint32 txin.nSequence

def CTxOut.serialize (txout : CTxOut) : Bytes :=
  serializeUint64 txout.nValue ++ serializeScript txout.scriptPubKey

namespace CTransaction

variable (tx : CTransaction)

def isCoinBase : Bool :=
  match tx.vin with
  | [txin] => txin.prevout.isNull
  | _ => false

def isNull : Bool := tx.vin.isEmpty && tx.vout.isEmpty

def serialize (tx : CTransaction) : Bytes :=
  serializeUint32 tx.nVersion.toUInt32 ++ serializeCompactSize tx.vin.length ++ tx.vin.flatMap CTxIn.serialize ++
    serializeCompactSize tx.vout.length ++ tx.vout.flatMap CTxOut.serialize ++
    serializeUint32 tx.nLockTime

def getHash (H : HashFunctions) (tx : CTransaction) : Uint256 := H.sha3_256 tx.serialize

-- The signed message: every scriptSig is replaced by the empty script.
def getSigningHash (H : HashFunctions) (tx : CTransaction) : Uint256 :=
  H.sha3_256 (serialize { tx with vin := tx.vin.map (fun txin => { txin with scriptSig := [] }) })

end CTransaction

def compactSizeLength (size : Nat) : Nat :=
  if size < 253 then 1 else if size ≤ 0xFFFF then 3 else if size ≤ 0xFFFFFFFF then 5 else 9

def CTxIn.serializedSize (txin : CTxIn) : Nat :=
  32 + 4 + compactSizeLength txin.scriptSig.length + txin.scriptSig.length + 4

def CTxOut.serializedSize (txout : CTxOut) : Nat :=
  8 + compactSizeLength txout.scriptPubKey.length + txout.scriptPubKey.length

def CTransaction.getSerializedSize (tx : CTransaction) : Nat :=
  4 + compactSizeLength tx.vin.length + (tx.vin.map CTxIn.serializedSize).sum +
    compactSizeLength tx.vout.length + (tx.vout.map CTxOut.serializedSize).sum + 4

def deserializeUint32 : Decoder UInt32 := do
  let data ← takeBytes 4 "Insufficient data for uint32_t"
  return UInt32.ofNat (value data)

def deserializeUint64 : Decoder UInt64 := do
  let data ← takeBytes 8 "Insufficient data for uint64_t"
  return UInt64.ofNat (value data)

def deserializeCompactSize : Decoder Nat := do
  let first ← takeBytes 1 "Insufficient data for CompactSize"
  if value first < 253 then
    return value first
  else if value first = 253 then
    return value (← takeBytes 2 "Insufficient data for CompactSize (2-byte)")
  else if value first = 254 then
    return (← deserializeUint32).toNat
  else
    return (← deserializeUint64).toNat

def deserializeHash (error : String) : Decoder Uint256 := do
  let data ← takeBytes 32 error
  return Uint256.ofNat (value data)

section

-- Every length is read by `DeserializeCompactSize`; it is a parameter for the sake of the shortest form below.
variable (size : Decoder Nat)

def scriptWith (limit : Nat) (tooLarge insufficient : String) : Decoder Bytes := do
  let length ← size
  require (length ≤ limit) tooLarge
  takeBytes length insufficient

def txInWith : Decoder CTxIn := do
  let hash ← deserializeHash "Insufficient data for prevout hash"
  let n ← deserializeUint32
  let scriptSig ← scriptWith size 20000 "scriptSig too large" "Insufficient data for scriptSig"
  let nSequence ← deserializeUint32
  return ⟨⟨hash, n⟩, scriptSig, nSequence⟩

def txOutWith : Decoder CTxOut := do
  let nValue ← deserializeUint64
  let scriptPubKey ← scriptWith size 10000 "scriptPubKey too large" "Insufficient data for scriptPubKey"
  return ⟨nValue, scriptPubKey⟩

/-- A counted list: at most 100000 items, and no more than the remaining bytes can hold when an
item takes at least `minimum` bytes. -/
def listWith {α : Type} (item : Decoder α) (minimum : Nat) (tooMany unbacked : String) : Decoder (List α) := do
  let count ← size
  require (count ≤ 100000) tooMany
  let data ← remaining
  require (count * minimum ≤ data.length) unbacked
  many (fun _ => item) 0 count

def minTxInputSize : Nat := 41

def minTxOutputSize : Nat := 9

def transactionWith : Decoder CTransaction := do
  let version ← deserializeUint32
  let vin ← listWith size (txInWith size) minTxInputSize "Too many inputs"
    "Transaction claims more inputs than data available"
  let vout ← listWith size (txOutWith size) minTxOutputSize "Too many outputs"
    "Transaction claims more outputs than data available"
  let nLockTime ← deserializeUint32
  return ⟨version.toInt32, vin, vout, nLockTime⟩

end

def deserializeScript : Nat → String → String → Decoder Bytes := scriptWith deserializeCompactSize

def deserializeTxIn : Decoder CTxIn := txInWith deserializeCompactSize

def deserializeTxOut : Decoder CTxOut := txOutWith deserializeCompactSize

def deserializeList {α : Type} : Decoder α → Nat → String → String → Decoder (List α) := listWith deserializeCompactSize

-- Every caller modelled here asks for the number of bytes consumed, so bytes after the
-- transaction are left to it.
def CTransaction.deserialize : Decoder CTransaction := transactionWith deserializeCompactSize

lemma deserializeScript_yields (limit : Nat) (tooLarge insufficient : String) :
    Yields (deserializeScript limit tooLarge insufficient) (fun script => script.length ≤ limit) := by
  refine Yields.then fun length => bind (require _ tooLarge) fun _ bound => ?_
  intro data script rest done
  rw [Yields.takeBytes length insufficient _ _ _ done]
  exact bound

lemma deserializeTxOut_yields : Yields deserializeTxOut (fun txout => txout.scriptPubKey.length ≤ 10000) :=
  Yields.then fun _ => bind (deserializeScript_yields 10000 _ _) fun _ bound => pure bound

lemma deserializeList_yields {α : Type} {item : Decoder α} {post : α → Prop} (each : Yields item post)
    (minimum : Nat) (tooMany unbacked : String) :
    Yields (deserializeList item minimum tooMany unbacked) fun items => items.length ≤ 100000 ∧
    ∀ value ∈ items, post value := by
  refine Yields.then fun count => bind (require _ tooMany) fun _ few => Yields.then fun _ => Yields.then fun _ => ?_
  refine Yields.and (fun data items rest done => ?_) (Yields.many (fun _ => each) 0 count)
  rwa [Yields.many_length _ _ _ _ _ _ done]

lemma CTransaction.deserialize_yields :
    Yields CTransaction.deserialize (fun tx => ∀ txout ∈ tx.vout, txout.scriptPubKey.length ≤ 10000) :=
  Yields.then fun _ => Yields.then fun _ => bind (deserializeList_yields deserializeTxOut_yields _ _ _)
    fun _ bound => Yields.then fun _ => pure bound.2

/-! The byte format of transactions in both directions. A transaction within the limits reads back from
its serialization, whose length is the computed one. The reader takes a length in any of the four forms,
so the bytes it consumed are the serialization of what it returned exactly if each length was written in
the shortest form. -/

open CTransaction Reads Consumes Stricter List

lemma reads_uint32 (value : UInt32) : Reads deserializeUint32 (serializeUint32 value) value := by
  have read := (takeBytes (serializeUint32_length value) "Insufficient data for uint32_t").map
    fun data => UInt32.ofNat (LittleEndian.value data)
  rwa [ofNat_value_serializeUint32] at read

lemma reads_uint64 (value : UInt64) : Reads deserializeUint64 (serializeUint64 value) value := by
  have read := (takeBytes (serializeUint64_length value) "Insufficient data for uint64_t").map
    fun data => UInt64.ofNat (LittleEndian.value data)
  rwa [ofNat_value_serializeUint64] at read

lemma consumes_uint32 : Consumes deserializeUint32 fun value front => front = serializeUint32 value := by
  refine bind (Consumes.takeBytes 4 _) fun data front taken => ?_
  obtain ⟨rfl, size⟩ := taken
  refine pure ?_
  have bound : value front < 2 ^ 32 := by simpa [size] using value_lt front
  rw [append_nil, serializeUint32, UInt32.toNat_ofNat_of_lt' bound, encode_value_of_length size]

lemma consumes_uint64 : Consumes deserializeUint64 fun value front => front = serializeUint64 value := by
  refine bind (Consumes.takeBytes 8 _) fun data front taken => ?_
  obtain ⟨rfl, size⟩ := taken
  refine pure ?_
  have bound : value front < 2 ^ 64 := by simpa [size] using value_lt front
  rw [append_nil, serializeUint64, UInt64.toNat_ofNat_of_lt' bound, encode_value_of_length size]

@[simp] lemma serializeCompactSize_length (size : Nat) :
    (serializeCompactSize size).length = compactSizeLength size := by
  unfold serializeCompactSize compactSizeLength
  split
  · rfl
  · split
    · simp
    · split <;> simp

variable {size : Nat}

lemma reads_compactSize (bound : size < 2 ^ 64) : Reads deserializeCompactSize (serializeCompactSize size) size := by
  unfold deserializeCompactSize serializeCompactSize
  split
  next small =>
    change Reads _ ([UInt8.ofNat size] ++ []) size
    refine bind (takeBytes rfl _) ?_
    have value : value [UInt8.ofNat size] = size := value_encode (n := 1) (by omega)
    rw [value, if_pos small]
    exact pure size
  next large =>
    split
    next two =>
      have read := (takeBytes (encode_length 2 size) "Insufficient data for CompactSize (2-byte)").map value
      rwa [value_encode (by omega)] at read
    next wider =>
      split
      next four =>
        have narrow : (UInt32.ofNat size).toNat = size := UInt32.toNat_ofNat_of_lt' (show size < 2 ^ 32 by omega)
        have read := (reads_uint32 (UInt32.ofNat size)).map UInt32.toNat
        rwa [serializeUint32, narrow] at read
      next widest =>
        have whole : (UInt64.ofNat size).toNat = size := UInt64.toNat_ofNat_of_lt' bound
        have read := (reads_uint64 (UInt64.ofNat size)).map UInt64.toNat
        rwa [serializeUint64, whole] at read

/-- A length is read from one of its four forms, and only the shortest has the computed width. -/
lemma consumes_compactSize : Consumes deserializeCompactSize fun size front =>
    size < 2 ^ 64 ∧ (front.length = compactSizeLength size ↔ front = serializeCompactSize size) := by
  have shortest : ∀ {size : Nat}
      {front : Bytes}, (front.length = compactSizeLength size → front = serializeCompactSize size) →
      (front.length = compactSizeLength size ↔ front = serializeCompactSize size) :=
    fun right => ⟨right, fun same => by rw [same, serializeCompactSize_length]⟩
  refine bind (Consumes.takeBytes 1 _) fun first front taken => ?_
  obtain ⟨rfl, one⟩ := taken
  obtain ⟨byte, rfl⟩ := length_eq_one_iff.mp one
  have marker : value [byte] = byte.toNat := by simp [value]
  have byteBound := byte.toNat_lt
  rw [marker]
  split
  next small =>
    refine pure ⟨by omega, shortest fun _ => ?_⟩
    rw [serializeCompactSize, if_pos small, UInt8.ofNat_toNat]
    rfl
  next large =>
    split
    next isTwo =>
      have tag : byte = 253 := UInt8.toNat_inj.mp isTwo
      refine bind (Consumes.takeBytes 2 _) fun data back taken => ?_
      obtain ⟨rfl, size⟩ := taken
      have bound : value back < 2 ^ 16 := by simpa [size] using value_lt back
      refine pure ⟨by omega, shortest fun width => ?_⟩
      simp only [append_nil, cons_append, nil_append, length_cons, size, compactSizeLength] at width
      rw [serializeCompactSize, if_neg (by grind), if_pos (by omega), encode_value_of_length size, tag]
      simp
    next notTwo =>
      split
      next isFour =>
        have tag : byte = 254 := UInt8.toNat_inj.mp isFour
        refine bind consumes_uint32 fun value back taken => ?_
        subst taken
        have bound := value.toNat_lt
        refine pure ⟨by omega, shortest fun width => ?_⟩
        simp only [append_nil, cons_append, nil_append, length_cons, serializeUint32_length,
          compactSizeLength] at width
        rw [serializeCompactSize, if_neg (by grind), if_neg (by grind), if_pos (by omega), tag]
        simp [serializeUint32]
      next notFour =>
        have tag : byte = 255 := UInt8.toNat_inj.mp (by simp only [UInt8.reduceToNat]; omega)
        refine bind consumes_uint64 fun value back taken => ?_
        subst taken
        have bound := value.toNat_lt
        refine pure ⟨by omega, shortest fun width => ?_⟩
        simp only [append_nil, cons_append, nil_append, length_cons, serializeUint64_length,
          compactSizeLength] at width
        rw [serializeCompactSize, if_neg (by grind), if_neg (by grind), if_neg (by grind), tag]
        simp [serializeUint64]

def deserializeMinimalSize : Decoder Nat := do
  let data ← remaining
  let size ← deserializeCompactSize
  let rest ← remaining
  require (data.length = compactSizeLength size + rest.length) "Length is not in its shortest form"
  return size

variable {data rest : Bytes}

/-- It answers as the reader of lengths, where the width is right. -/
lemma minimalSize_iff : deserializeMinimalSize.run data = .ok (size, rest) ↔
    deserializeCompactSize.run data = .ok (size, rest) ∧ data.length = compactSizeLength size + rest.length := by
  rw [deserializeMinimalSize, run_bind_remaining]
  constructor
  · intro done
    obtain ⟨found, kept, read, done⟩ := run_bind_eq_ok done
    rw [run_bind_remaining] at done
    obtain ⟨width, done⟩ := run_bind_require_iff.mp done
    cases done
    exact ⟨read, width⟩
  · rintro ⟨read, width⟩
    rw [run_bind_ok read, run_bind_remaining]
    exact run_bind_require_iff.mpr ⟨width, rfl⟩

lemma stricter_minimalSize : Stricter deserializeMinimalSize deserializeCompactSize :=
  fun _ _ done => (minimalSize_iff.mp done).1

lemma consumes_minimalSize : Consumes deserializeMinimalSize fun size front => front = serializeCompactSize size := by
  intro data size rest done
  obtain ⟨read, width⟩ := minimalSize_iff.mp done
  obtain ⟨front, rfl, -, shortest⟩ := consumes_compactSize _ _ _ read
  exact ⟨front, rfl, shortest.mp (by simpa using width)⟩

lemma reads_minimalSize (bound : size < 2 ^ 64) : Reads deserializeMinimalSize (serializeCompactSize size) size :=
  fun rest => minimalSize_iff.mpr ⟨reads_compactSize bound rest, by simp⟩

/-- Every count and every script length of the transaction in front is in its shortest form. -/
def MinimalLengths (data : Bytes) : Prop := ∃ result, (transactionWith deserializeMinimalSize).run data = .ok result

section

variable {strict size : Decoder Nat} (stricter : Stricter strict size)

include stricter

lemma Stricter.scriptWith (limit : Nat) (tooLarge insufficient : String) :
    Stricter (scriptWith strict limit tooLarge insufficient) (scriptWith size limit tooLarge insufficient) :=
  stricter.bind fun _ => .refl _

lemma Stricter.listWith {α : Type} {item item' : Decoder α} (each : Stricter item item') (minimum : Nat)
    (tooMany unbacked : String) :
    Stricter (listWith strict item minimum tooMany unbacked) (listWith size item' minimum tooMany unbacked) :=
  stricter.bind fun count => (refl _).bind fun _ => (refl _).bind fun _ => (refl _).bind fun _ =>
    each.many 0 count

lemma Stricter.transactionWith : Stricter (transactionWith strict) (transactionWith size) := by
  have script := Stricter.scriptWith stricter
  have input : Stricter (txInWith strict) (txInWith size) :=
    (refl _).bind fun _ => (refl _).bind fun _ => (script _ _ _).bind fun _ => .refl _
  have output : Stricter (txOutWith strict) (txOutWith size) := (refl _).bind fun _ =>
    (script _ _ _).bind fun _ => .refl _
  exact (refl _).bind fun _ => (listWith stricter input _ _ _).bind fun _ =>
    (listWith stricter output _ _ _).bind fun _ => .refl _

end

lemma reads_hash (hash : Uint256) (error : String) : Reads (deserializeHash error) hash.data hash := by
  have read := (takeBytes hash.size error).map fun data => Uint256.ofNat (value data)
  rwa [show Uint256.ofNat (value hash.data) = hash from
    Uint256.ext_data (encode_value_of_length hash.size)] at read

lemma consumes_hash (error : String) : Consumes (deserializeHash error) fun hash front => front = hash.data := by
  refine bind (Consumes.takeBytes 32 error) fun data front taken => ?_
  obtain ⟨rfl, size⟩ := taken
  exact pure ((append_nil front).trans (encode_value_of_length size).symm)

section

variable {size : Decoder Nat} (shortest : Consumes size fun length front => front = serializeCompactSize length)

include shortest

lemma consumes_scriptWith (limit : Nat) (tooLarge insufficient : String) :
    Consumes (scriptWith size limit tooLarge insufficient) fun script front => front = serializeScript script := by
  refine bind shortest fun length front isLength => bind (require _ _) fun _ nothing checked => ?_
  obtain ⟨rfl, -⟩ := checked
  subst isLength
  refine (Consumes.takeBytes length insufficient).weaken fun script back taken => ?_
  obtain ⟨rfl, rfl⟩ := taken
  rfl

lemma consumes_txInWith : Consumes (txInWith size) fun txin front => front = txin.serialize := by
  refine bind (consumes_hash _) fun hash front isHash => bind consumes_uint32 fun n back isN => ?_
  refine bind (consumes_scriptWith shortest _ _ _) fun script third isScript => ?_
  refine bind consumes_uint32 fun sequence fourth isSequence => pure ?_
  subst isHash isN isScript isSequence
  simp [CTxIn.serialize]

lemma consumes_txOutWith : Consumes (txOutWith size) fun txout front => front = txout.serialize := by
  refine bind consumes_uint64 fun value front isValue => ?_
  refine bind (consumes_scriptWith shortest _ _ _) fun script back isScript => pure ?_
  subst isValue isScript
  simp [CTxOut.serialize]

lemma consumes_listWith {α : Type} {item : Decoder α} {code : α → Bytes}
    (each : Consumes item fun value front => front = code value) (minimum : Nat) (tooMany unbacked : String) :
    Consumes (listWith size item minimum tooMany unbacked) fun items front =>
      front = serializeCompactSize items.length ++ items.flatMap code := by
  refine bind shortest fun count front isCount => bind (require _ _) fun _ first checked => ?_
  refine bind Consumes.remaining fun data second nothing => bind (require _ _) fun _ third backed => ?_
  obtain ⟨rfl, -⟩ := checked
  obtain ⟨rfl, -⟩ := backed
  subst isCount nothing
  refine (Consumes.many each 0 count).weaken fun items back taken => ?_
  obtain ⟨rfl, rfl⟩ := taken
  rfl

/-- A reader that insists on the shortest lengths has consumed the serialization of what it returns. -/
lemma consumes_transactionWith : Consumes (transactionWith size) fun tx front => front = tx.serialize := by
  refine bind consumes_uint32 fun version first isVersion => ?_
  refine bind (consumes_listWith shortest (consumes_txInWith shortest) _ _ _) fun vin second isInputs => ?_
  refine bind (consumes_listWith shortest (consumes_txOutWith shortest) _ _ _) fun vout third isOutputs => ?_
  refine bind consumes_uint32 fun lockTime fourth isLockTime => pure ?_
  subst isVersion isInputs isOutputs isLockTime
  simp [serialize]

end

structure CTransaction.WithinLimits (tx : CTransaction) : Prop where
  inputs : tx.vin.length ≤ 100000
  scriptSigs : ∀ txin ∈ tx.vin, txin.scriptSig.length ≤ 20000
  outputs : tx.vout.length ≤ 100000
  scriptPubKeys : ∀ txout ∈ tx.vout, txout.scriptPubKey.length ≤ 10000

lemma CTxIn.serialize_length (txin : CTxIn) : txin.serialize.length = txin.serializedSize := by
  simp [CTxIn.serialize, CTxIn.serializedSize, serializeScript, txin.prevout.hash.size]
  omega

lemma CTxOut.serialize_length (txout : CTxOut) : txout.serialize.length = txout.serializedSize := by
  simp [CTxOut.serialize, CTxOut.serializedSize, serializeScript]
  omega

lemma compactSizeLength_pos (size : Nat) : 1 ≤ compactSizeLength size := by
  unfold compactSizeLength
  repeat' split
  all_goals decide

lemma minTxInputSize_le (txin : CTxIn) : minTxInputSize ≤ txin.serialize.length := by
  have := compactSizeLength_pos txin.scriptSig.length
  rw [txin.serialize_length, CTxIn.serializedSize, minTxInputSize]
  omega

lemma minTxOutputSize_le (txout : CTxOut) : minTxOutputSize ≤ txout.serialize.length := by
  have := compactSizeLength_pos txout.scriptPubKey.length
  rw [txout.serialize_length, CTxOut.serializedSize, minTxOutputSize]
  omega

lemma CTransaction.serialize_length (tx : CTransaction) : tx.serialize.length = tx.getSerializedSize := by
  have inputs : (fun txin : CTxIn => txin.serialize.length) = CTxIn.serializedSize := funext CTxIn.serialize_length
  have outputs : (fun txout : CTxOut => txout.serialize.length) = CTxOut.serializedSize :=
    funext CTxOut.serialize_length
  simp only [serialize, getSerializedSize, length_append, length_flatMap,
    serializeUint32_length, serializeCompactSize_length, inputs, outputs]

section

variable {size : Decoder Nat} (reads : ∀ length, length < 2 ^ 64 → Reads size (serializeCompactSize length) length)

include reads

lemma reads_scriptWith {script : Bytes} {limit : Nat} (fits : script.length ≤ limit) (small : limit < 2 ^ 64)
    (tooLarge insufficient : String) :
    Reads (scriptWith size limit tooLarge insufficient) (serializeScript script) script := by
  have length := reads script.length (by omega)
  have body : Reads (require (script.length ≤ limit) tooLarge >>= fun _ => takeBytes script.length insufficient)
      ([] ++ script) script :=
    (require fits tooLarge).bind (takeBytes rfl insufficient)
  exact length.bind body

lemma reads_txInWith {txin : CTxIn} (fits : txin.scriptSig.length ≤ 20000) :
    Reads (txInWith size) txin.serialize txin := by
  have sequence := (reads_uint32 txin.nSequence).map fun nSequence =>
    (⟨txin.prevout, txin.scriptSig, nSequence⟩ : CTxIn)
  simp only [CTxIn.serialize, append_assoc]
  refine bind (reads_hash _ _) (bind (reads_uint32 _) ?_)
  exact bind (reads_scriptWith reads fits (by decide) _ _) sequence

lemma reads_txOutWith {txout : CTxOut} (fits : txout.scriptPubKey.length ≤ 10000) :
    Reads (txOutWith size) txout.serialize txout := by
  have script := (reads_scriptWith reads fits
    (by decide) "scriptPubKey too large" "Insufficient data for scriptPubKey").map
    fun scriptPubKey => (⟨txout.nValue, scriptPubKey⟩ : CTxOut)
  exact (reads_uint64 txout.nValue).bind script

lemma reads_listWith {α : Type} {item : Decoder α} {code : α → Bytes} {items : List α} {minimum : Nat}
    (each : ∀ value ∈ items, Reads item (code value) value) (few : items.length ≤ 100000)
    (long : ∀ value ∈ items, minimum ≤ (code value).length) (tooMany unbacked : String) :
    Reads (listWith size item minimum tooMany unbacked)
      (serializeCompactSize items.length ++ items.flatMap code) items := by
  intro rest
  have backed : items.length * minimum ≤ (items.flatMap code ++ rest).length := by
    have total : ∀ values : List α, (∀ value ∈ values, minimum ≤ (code value).length) →
        values.length * minimum ≤ (values.flatMap code).length := by
      intro values enough
      induction values with
      | nil => simp
      | cons value others ih =>
        have here := enough value mem_cons_self
        have later := ih fun other member => enough other (mem_cons_of_mem _ member)
        simp only [length_cons, flatMap_cons, length_append, Nat.add_mul]
        omega
    rw [length_append]
    have := total items long
    omega
  rw [append_assoc, listWith, run_bind_ok (reads items.length (by omega) _)]
  refine run_bind_require_iff.mpr ⟨few, ?_⟩
  rw [run_bind_remaining]
  exact run_bind_require_iff.mpr ⟨backed, many each 0 rest⟩

lemma reads_transactionWith {tx : CTransaction} (within : tx.WithinLimits) :
    Reads (transactionWith size) tx.serialize tx := by
  have inputs := reads_listWith reads
    (fun txin member => reads_txInWith reads (within.scriptSigs txin member)) within.inputs
    (fun txin _ => minTxInputSize_le txin) "Too many inputs" "Transaction claims more inputs than data available"
  have outputs := reads_listWith reads
    (fun txout member => reads_txOutWith reads (within.scriptPubKeys txout member)) within.outputs
    (fun txout _ => minTxOutputSize_le txout) "Too many outputs" "Transaction claims more outputs than data available"
  have lockTime := (reads_uint32 tx.nLockTime).map fun nLockTime =>
    (⟨tx.nVersion.toUInt32.toInt32, tx.vin, tx.vout, nLockTime⟩ : CTransaction)
  have grouped : tx.serialize = serializeUint32 tx.nVersion.toUInt32 ++
      ((serializeCompactSize tx.vin.length ++ tx.vin.flatMap CTxIn.serialize) ++
        ((serializeCompactSize tx.vout.length ++ tx.vout.flatMap CTxOut.serialize) ++
          serializeUint32 tx.nLockTime)) := by
    simp [serialize]
  rw [grouped]
  exact bind (reads_uint32 _) (bind inputs (bind outputs lockTime))

end

lemma deserialize_withinLimits : Yields deserialize CTransaction.WithinLimits := by
  have inputs : Yields (deserializeList deserializeTxIn minTxInputSize "Too many inputs"
      "Transaction claims more inputs than data available")
      fun vin => vin.length ≤ 100000 ∧ ∀ txin ∈ vin, txin.scriptSig.length ≤ 20000 :=
    deserializeList_yields (Yields.then fun _ => Yields.then fun _ => bind (deserializeScript_yields 20000 _ _)
      fun _ bound => Yields.then fun _ => pure bound) _ _ _
  have outputs := deserializeList_yields deserializeTxOut_yields minTxOutputSize "Too many outputs"
    "Transaction claims more outputs than data available"
  refine Yields.then fun version => bind inputs fun vin fewInputs => ?_
  refine bind outputs fun vout fewOutputs => Yields.then fun lockTime => pure ?_
  exact ⟨fewInputs.1, fewInputs.2, fewOutputs.1, fewOutputs.2⟩

-- `Deserialize` for a caller that does not ask for the number of bytes consumed.
def CTransaction.deserializeAll : Decoder CTransaction := do
  let tx ← deserialize
  let rest ← remaining
  require (rest = []) "Extra data after transaction"
  return tx

/-- Where lengths are shortest, the bytes consumed are the serialization, and only there. -/
lemma deserialize_eq_serialize_iff {tx : CTransaction}
    (accepted : deserialize.run data = .ok (tx, rest)) : data = tx.serialize ++ rest ↔ MinimalLengths data := by
  constructor
  · rintro rfl
    have within := deserialize_withinLimits _ _ _ accepted
    exact ⟨_, reads_transactionWith (fun _ bound => reads_minimalSize bound) within rest⟩
  · rintro ⟨⟨found, kept⟩, strict⟩
    have same := Stricter.transactionWith stricter_minimalSize _ _ strict
    rw [show transactionWith deserializeCompactSize = deserialize from rfl, accepted] at same
    cases same
    obtain ⟨front, rfl, rfl⟩ := consumes_transactionWith consumes_minimalSize _ _ _ strict
    rfl

/-- A transaction within the limits reads back from its serialization, with or without bytes that follow,
and the serialization has the computed size; conversely, the bytes consumed are the serialization of
what was read exactly if every length among them is in its shortest form. -/
theorem transaction_codec (tx : CTransaction) (data rest : Bytes) : (tx.WithinLimits →
    CTransaction.deserialize.run (tx.serialize ++ rest) = .ok (tx, rest) ∧
      CTransaction.deserializeAll.run tx.serialize = .ok (tx, []) ∧ tx.serialize.length = tx.getSerializedSize) ∧
    (CTransaction.deserialize.run data = .ok (tx, rest) →
      tx.WithinLimits ∧ (data = tx.serialize ++ rest ↔ MinimalLengths data)) := by
  refine ⟨fun within => ?_, fun accepted =>
    ⟨deserialize_withinLimits _ _ _ accepted, deserialize_eq_serialize_iff accepted⟩⟩
  have reads : Reads deserialize tx.serialize tx :=
    reads_transactionWith (fun _ bound => reads_compactSize bound) within
  refine ⟨reads rest, ?_, tx.serialize_length⟩
  have alone := reads []
  rw [append_nil] at alone
  rw [deserializeAll, run_bind_ok alone]
  rfl

def plainPayment : CTransaction := ⟨1, [⟨⟨Uint256.ofNat 1, 0⟩, [1, 2], 0xFFFFFFFF⟩], [⟨50, [3]⟩], 0⟩

theorem plain_payment_reads_back : CTransaction.deserializeAll.run plainPayment.serialize = .ok (plainPayment, []) ∧
    (plainPayment.serialize = plainPayment.serialize ++ [] ↔ MinimalLengths plainPayment.serialize) := by
  have within : plainPayment.WithinLimits := ⟨by decide, by decide, by decide, by decide⟩
  obtain ⟨written, read⟩ := transaction_codec plainPayment plainPayment.serialize []
  exact ⟨(written within).2.1, (read (by decide)).2⟩

/-- No inputs, no outputs, and the count of inputs written in three bytes. -/
def wideCount : Bytes := [1, 0, 0, 0] ++ [253, 0, 0] ++ [0] ++ [0, 0, 0, 0]

theorem wide_count_is_accepted : CTransaction.deserialize.run wideCount = .ok (⟨1, [], [], 0⟩, []) ∧
    (⟨1, [], [], 0⟩ : CTransaction).serialize ≠ wideCount := by
  decide

structure CTransaction.Sized (tx : CTransaction) : Prop where
  inputs : tx.vin.length < 2 ^ 64
  scriptSigs : ∀ txin ∈ tx.vin, txin.scriptSig.length < 2 ^ 64
  outputs : tx.vout.length < 2 ^ 64
  scriptPubKeys : ∀ txout ∈ tx.vout, txout.scriptPubKey.length < 2 ^ 64

lemma readable_uint32 : Readable serializeUint32 fun _ => True := .of_reads fun value _ => reads_uint32 value

lemma readable_uint64 : Readable serializeUint64 fun _ => True := .of_reads fun value _ => reads_uint64 value

lemma readable_hash : Readable Uint256.data fun _ => True := .of_reads fun hash _ => reads_hash hash ""

lemma readable_compactSize : Readable serializeCompactSize fun size => size < 2 ^ 64 :=
  .of_reads fun _ => reads_compactSize

lemma readable_script : Readable serializeScript fun script => script.length < 2 ^ 64 := by
  intro first second small small' rest rest' same
  simp only [serializeScript, append_assoc] at same
  obtain ⟨size, later⟩ := readable_compactSize _ _ small small' _ _ same
  exact append_inj later size

lemma readable_txIn : Readable CTxIn.serialize fun txin => txin.scriptSig.length < 2 ^ 64 := by
  rintro ⟨⟨hash, n⟩, scriptSig, nSequence⟩ ⟨⟨hash', n'⟩, scriptSig', nSequence'⟩ small small' rest rest' same
  simp only [CTxIn.serialize, append_assoc] at same
  obtain ⟨rfl, afterHash⟩ := readable_hash _ _ trivial trivial _ _ same
  obtain ⟨rfl, afterIndex⟩ := readable_uint32 _ _ trivial trivial _ _ afterHash
  obtain ⟨rfl, afterScript⟩ := readable_script _ _ small small' _ _ afterIndex
  obtain ⟨rfl, behind⟩ := readable_uint32 _ _ trivial trivial _ _ afterScript
  exact ⟨rfl, behind⟩

lemma readable_txOut : Readable CTxOut.serialize fun txout => txout.scriptPubKey.length < 2 ^ 64 := by
  rintro ⟨nValue, scriptPubKey⟩ ⟨nValue', scriptPubKey'⟩ small small' rest rest' same
  obtain ⟨rfl, afterValue⟩ := readable_uint64 _ _ trivial trivial _ _ same
  obtain ⟨rfl, behind⟩ := readable_script _ _ small small' _ _ afterValue
  exact ⟨rfl, behind⟩

lemma readable_transaction : Readable serialize CTransaction.Sized := by
  rintro ⟨nVersion, vin, vout, nLockTime⟩ ⟨nVersion', vin', vout', nLockTime'⟩ small small' rest rest' same
  simp only [serialize, append_assoc] at same
  obtain ⟨version, afterVersion⟩ := readable_uint32 _ _ trivial trivial _ _ same
  simp only [← append_assoc (serializeCompactSize _)] at afterVersion
  obtain ⟨rfl, afterInputs⟩ := Readable.counted readable_compactSize readable_txIn _ _ ⟨small.inputs, small.scriptSigs⟩
    ⟨small'.inputs, small'.scriptSigs⟩ _ _ afterVersion
  obtain ⟨rfl, afterOutputs⟩ := Readable.counted readable_compactSize readable_txOut
    _ _ ⟨small.outputs, small.scriptPubKeys⟩
    ⟨small'.outputs, small'.scriptPubKeys⟩ _ _ afterInputs
  obtain ⟨rfl, behind⟩ := readable_uint32 _ _ trivial trivial _ _ afterOutputs
  have versions : nVersion = nVersion' := by simpa using congrArg UInt32.toInt32 version
  subst versions
  exact ⟨rfl, behind⟩

end Dilithion
