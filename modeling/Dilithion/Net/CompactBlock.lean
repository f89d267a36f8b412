import Dilithion.Consensus.MerkleBinding

/-! Compact blocks: a block is put together from prefilled transactions, the mempool and an answer of the
peer, and is returned if its merkle root is the header's. The root of a list is also the root of the list
with its odd end repeated, so the header fixes the transactions only together with their number. -/

namespace Dilithion

open Lib CBlockValidator CTransaction MerkleTree List

structure PrefilledTransaction where
  index : UInt16
  tx : CTransaction

structure CBlockHeaderAndShortTxIDs where
  header : CBlockHeader
  nonce : UInt64
  shorttxids : List UInt64
  prefilledtxn : List PrefilledTransaction

inductive ReadStatus where
  | ok
  | invalid
  | extraTxn
  deriving DecidableEq

structure PartiallyDownloadedBlock where
  isInitialized : Bool := false
  header : CBlockHeader := ⟨0, .null, .null, 0, 0, 0, .null, .null⟩
  txnAvailable : List (Option CTransaction) := []
  /-- The index stored last for a short id comes first. -/
  shortidToIndex : List (UInt64 × UInt16) := []
  prefilledIndices : List UInt16 := []

namespace CBlockHeaderAndShortTxIDs

variable (H : HashFunctions) (sipHash : UInt64 → UInt64 → Uint256 → UInt64) (cmpctblock : CBlockHeaderAndShortTxIDs)

/-- The two SipHash keys, from the header without its VDF fields and the nonce. -/
def fillShortTxIDSelector : UInt64 × UInt64 :=
  let header := cmpctblock.header
  let hash := H.sha3_256 (serializeUint32 header.nVersion.toUInt32 ++ header.hashPrevBlock.data ++
    header.hashMerkleRoot.data ++
    serializeUint32 header.nTime ++ serializeUint32 header.nBits ++ serializeUint32 header.nNonce ++
    serializeUint64 cmpctblock.nonce)
  (.ofNat (LittleEndian.value (hash.data.take 8)), .ofNat (LittleEndian.value ((hash.data.drop 8).take 8)))

def getShortID (txid : Uint256) : UInt64 :=
  let (k0, k1) := cmpctblock.fillShortTxIDSelector H
  sipHash k0 k1 txid &&& 0xffffffffffff

def isValid : Bool :=
  decide (cmpctblock.shorttxids.length ≤ 100000) &&
    decide (cmpctblock.prefilledtxn.length ≤ cmpctblock.shorttxids.length + 1) &&
    cmpctblock.prefilledtxn.all fun prefilled => decide (prefilled.index.toNat ≤ cmpctblock.shorttxids.length)

def txCount : Nat := cmpctblock.shorttxids.length + cmpctblock.prefilledtxn.length

end CBlockHeaderAndShortTxIDs

def serializeTransactionsToVtx (transactions : List (Option CTransaction)) : Bytes :=
  serializeCompactSize transactions.length ++ transactions.flatMap fun tx => tx.elim [] serialize

def buildMerkleRootFromTxs (H : HashFunctions) (transactions : List (Option CTransaction)) : Uint256 :=
  merkleClimb H transactions.length (transactions.map fun tx => tx.elim .null (getHash H))

namespace PartiallyDownloadedBlock

variable (H : HashFunctions) (sipHash : UInt64 → UInt64 → Uint256 → UInt64) (p : PartiallyDownloadedBlock)

def put (index : Nat) (tx : CTransaction) : PartiallyDownloadedBlock :=
  { p with txnAvailable := p.txnAvailable.set index (some tx) }

/-- The prefilled transactions, up to the first index that is out of range. -/
def placePrefilled : PartiallyDownloadedBlock → List PrefilledTransaction → PartiallyDownloadedBlock × Bool
  | p, [] => (p, true)
  | p, prefilled :: rest =>
    if p.txnAvailable.length ≤ prefilled.index.toNat then (p, false)
    else placePrefilled { p.put prefilled.index.toNat prefilled.tx with
      prefilledIndices := prefilled.index :: p.prefilledIndices } rest

/-- The short ids go to the positions that are not prefilled; positions are cut to 16 bits. -/
def mapShortIds : PartiallyDownloadedBlock → List UInt64 → List Nat → PartiallyDownloadedBlock × Bool
  | p, _, [] => (p, true)
  | p, shorttxids, i :: rest =>
    if .ofNat i ∈ p.prefilledIndices then mapShortIds p shorttxids rest
    else match shorttxids with
      | [] => (p, false)
      | shortid :: others => mapShortIds
          { p with shortidToIndex := (shortid, .ofNat i) :: p.shortidToIndex } others rest

def tryMempool (cmpctblock : CBlockHeaderAndShortTxIDs) (tx : CTransaction) : PartiallyDownloadedBlock :=
  match p.shortidToIndex.lookup (cmpctblock.getShortID H sipHash (tx.getHash H)) with
  | none => p
  | some index => if (p.txnAvailable.getD index.toNat none).isSome then p else p.put index.toNat tx

def getMissingTxIndices : List UInt16 :=
  ((List.range p.txnAvailable.length).filter fun i => (p.txnAvailable.getD i none).isNone).map .ofNat

def getMissingTxCount : Nat := p.txnAvailable.countP Option.isNone

def initData (cmpctblock : CBlockHeaderAndShortTxIDs) (mempoolTxs : List CTransaction) :
    ReadStatus × PartiallyDownloadedBlock :=
  if !cmpctblock.isValid then (.invalid, p)
  else
    let txCount := cmpctblock.txCount
    let p := { p with
      header := cmpctblock.header
      txnAvailable := (p.txnAvailable ++ List.replicate txCount none).take txCount }
    let (p, placed) := placePrefilled p cmpctblock.prefilledtxn
    if !placed then (.invalid, p)
    else
      let (p, mapped) := mapShortIds p cmpctblock.shorttxids (List.range txCount)
      if !mapped then (.invalid, p)
      else
        let p := { mempoolTxs.foldl (fun p tx => p.tryMempool H sipHash cmpctblock tx) p with isInitialized := true }
        (if 0 < p.getMissingTxCount then .extraTxn else .ok, p)

def fillMissingTxs (txn : List CTransaction) : ReadStatus × PartiallyDownloadedBlock :=
  let missing := p.getMissingTxIndices
  if txn.length ≠ missing.length then (.invalid, p)
  else (.ok, (missing.zip txn).foldl (fun p item => p.put item.1.toNat item.2) p)

/-- `none` where the call returns false. -/
def getBlock : Option CBlock :=
  if !p.isInitialized then none
  else if 0 < p.getMissingTxCount then none
  else if buildMerkleRootFromTxs H p.txnAvailable ≠ p.header.hashMerkleRoot then none
  else some { toCBlockHeader := p.header, vtx := serializeTransactionsToVtx p.txnAvailable }

def reconstruct (cmpctblock : CBlockHeaderAndShortTxIDs) (mempoolTxs answer : List CTransaction) :
    PartiallyDownloadedBlock :=
  ((initData H sipHash {} cmpctblock mempoolTxs).2.fillMissingTxs answer).2

variable {H sipHash p} {cmpctblock : CBlockHeaderAndShortTxIDs} {mempoolTxs answer : List CTransaction}

variable (p) in
def Sized (cmpctblock : CBlockHeaderAndShortTxIDs) : Prop :=
  p.header = cmpctblock.header ∧ p.txnAvailable.length = cmpctblock.txCount

section

variable (sized : p.Sized cmpctblock)

include sized

lemma Sized.put (index : Nat) (tx : CTransaction) : (p.put index tx).Sized cmpctblock :=
  ⟨sized.1, length_set.trans sized.2⟩

lemma Sized.placePrefilled (prefilledtxn : List PrefilledTransaction) :
    (placePrefilled p prefilledtxn).1.Sized cmpctblock := by
  induction prefilledtxn generalizing p with
  | nil => exact sized
  | cons prefilled rest ih =>
    rw [PartiallyDownloadedBlock.placePrefilled]
    split
    · exact sized
    · exact ih (sized.put _ prefilled.tx)

lemma Sized.mapShortIds (shorttxids : List UInt64) (positions : List Nat) :
    (mapShortIds p shorttxids positions).1.Sized cmpctblock := by
  induction positions generalizing p shorttxids with
  | nil => exact sized
  | cons i rest ih =>
    rw [PartiallyDownloadedBlock.mapShortIds.eq_def]
    dsimp only
    split
    · exact ih sized shorttxids
    · split
      · exact sized
      · refine ih ?_ _
        exact sized

lemma Sized.tryMempool (tx : CTransaction) : (p.tryMempool H sipHash cmpctblock tx).Sized cmpctblock := by
  unfold PartiallyDownloadedBlock.tryMempool
  split
  · exact sized
  · split
    · exact sized
    · exact sized.put _ tx

end

lemma Sized.foldl {A : Type} {step : PartiallyDownloadedBlock → A → PartiallyDownloadedBlock}
    (keeps : ∀ p item, p.Sized cmpctblock → (step p item).Sized cmpctblock) (items : List A)
    (sized : p.Sized cmpctblock) :
    (items.foldl step p).Sized cmpctblock := by
  induction items generalizing p with
  | nil => exact sized
  | cons item rest ih => exact ih (keeps p item sized)

/-- An object that says it is initialised holds as many transactions as the message announced. -/
lemma sized_initData (initialised : (initData H sipHash {} cmpctblock mempoolTxs).2.isInitialized = true) :
    (initData H sipHash {} cmpctblock mempoolTxs).2.Sized cmpctblock := by
  have keeps (p : PartiallyDownloadedBlock) (tx : CTransaction) (sized : p.Sized cmpctblock) :
      (p.tryMempool H sipHash cmpctblock tx).Sized cmpctblock :=
    sized.tryMempool tx
  have resized : Sized { ({} : PartiallyDownloadedBlock) with
      header := cmpctblock.header
      txnAvailable := ([] ++ replicate cmpctblock.txCount none).take cmpctblock.txCount } cmpctblock :=
    ⟨rfl, by simp⟩
  have placed := resized.placePrefilled cmpctblock.prefilledtxn
  have mapped := placed.mapShortIds cmpctblock.shorttxids (range cmpctblock.txCount)
  unfold initData at initialised ⊢
  split at initialised
  · cases initialised
  · rename_i valid
    rw [if_neg valid]
    dsimp only
    split
    · exact placed
    · split
      · exact mapped
      · exact Sized.foldl keeps mempoolTxs mapped

lemma initialised_foldl_put (items : List (UInt16 × CTransaction)) (p : PartiallyDownloadedBlock) :
    (items.foldl (fun p item => p.put item.1.toNat item.2) p).isInitialized = p.isInitialized := by
  induction items generalizing p with
  | nil => rfl
  | cons item rest ih => exact ih _

lemma initialised_fillMissingTxs : (p.fillMissingTxs answer).2.isInitialized = p.isInitialized := by
  unfold fillMissingTxs
  dsimp only
  split
  · rfl
  · exact initialised_foldl_put _ p

lemma Sized.fillMissingTxs (sized : p.Sized cmpctblock) : (p.fillMissingTxs answer).2.Sized cmpctblock := by
  unfold PartiallyDownloadedBlock.fillMissingTxs
  dsimp only
  split
  · exact sized
  · exact Sized.foldl (fun p item sized => sized.put _ item.2) _ sized

variable (p) in
def delivered : List CTransaction := p.txnAvailable.filterMap id

lemma txnAvailable_eq (complete : p.getMissingTxCount = 0) : p.txnAvailable = p.delivered.map some := by
  unfold getMissingTxCount at complete
  unfold delivered
  generalize p.txnAvailable = available at complete
  induction available with
  | nil => rfl
  | cons tx rest ih =>
    cases tx with
    | none => simp at complete
    | some tx => simpa using ih (by simpa using complete)

lemma buildMerkleRootFromTxs_some (transactions : List CTransaction) :
    buildMerkleRootFromTxs H (transactions.map some) = buildMerkleRoot H transactions := by
  simp [buildMerkleRootFromTxs, buildMerkleRoot, Function.comp_def]

lemma getBlock_cases {block : CBlock} (returned : p.getBlock H = some block) :
    p.isInitialized = true ∧ p.txnAvailable = p.delivered.map some ∧
      buildMerkleRoot H p.delivered = p.header.hashMerkleRoot ∧
      block = ⟨p.header, serializeTransactionsToVtx (p.delivered.map some)⟩ := by
  unfold getBlock at returned
  split at returned
  · cases returned
  · split at returned
    · cases returned
    · rename_i initialised missing
      have available := txnAvailable_eq (Nat.eq_zero_of_not_pos missing)
      split at returned
      · cases returned
      · rename_i root
        rw [not_not, available, buildMerkleRootFromTxs_some] at root
        rw [available] at returned
        exact ⟨by simpa using initialised, available, root, (Option.some.inj returned).symm⟩

structure NoCollision (H : HashFunctions) (transactions transactions' : List CTransaction) : Prop where
  onNodes : Set.InjOn H.sha3_256 {string | string ∈ nodeStrings H transactions ∨ string ∈ nodeStrings H transactions'}
  onTransactions : Set.InjOn (getHash H) {tx | tx ∈ transactions ∨ tx ∈ transactions'}

variable {transactions transactions' : List CTransaction}

lemma eq_of_root_of_length (apart : NoCollision H transactions transactions')
    (sameLength : transactions.length = transactions'.length)
    (same : buildMerkleRoot H transactions = buildMerkleRoot H transactions') : transactions = transactions' := by
  unfold buildMerkleRoot at same
  rw [merkleClimb_eq_climb, merkleClimb_eq_climb, ← sameLength] at same
  refine map_injOn apart.onTransactions (fun _ => .inl) (fun _ => .inr)
    (eq_of_climb_of_length (by simpa using sameLength) (by simp) ?_ same)
  intro pair member pair' member' equal
  have inNodes {pair : Uint256 × Uint256}
      (member : pair ∈ joined (merkleNode H) transactions.length (transactions.map (getHash H)) ∨
        pair ∈ joined (merkleNode H) transactions.length (transactions'.map (getHash H))) :
      nodeString pair ∈ nodeStrings H transactions ∨ nodeString pair ∈ nodeStrings H transactions' := by
    refine member.imp (fun left => mem_map_of_mem left) fun right => ?_
    rw [sameLength] at right
    exact mem_map_of_mem right
  exact nodeString_inj (apart.onNodes (inNodes member) (inNodes member') equal)

/-- A returned block has the transactions its header commits to exactly if the message announced as many as
there are. -/
theorem getBlock_sound_iff (H : HashFunctions) (sipHash : UInt64 → UInt64 → Uint256 → UInt64)
    (transactions : List CTransaction) (cmpctblock : CBlockHeaderAndShortTxIDs) (mempoolTxs answer : List CTransaction)
    (block : CBlock) (committed : buildMerkleRoot H transactions = cmpctblock.header.hashMerkleRoot)
    (apart : NoCollision H (reconstruct H sipHash cmpctblock mempoolTxs answer).delivered transactions)
    (returned : (reconstruct H sipHash cmpctblock mempoolTxs answer).getBlock H = some block) :
    (reconstruct H sipHash cmpctblock mempoolTxs answer).txnAvailable = transactions.map some ∧
        block = ⟨cmpctblock.header, serializeTransactionsToVtx (transactions.map some)⟩ ↔
      cmpctblock.shorttxids.length + cmpctblock.prefilledtxn.length = transactions.length := by
  obtain ⟨initialised, available, root, isBlock⟩ := getBlock_cases returned
  have initialisedBefore : (initData H sipHash {} cmpctblock mempoolTxs).2.isInitialized = true := by
    rw [reconstruct, initialised_fillMissingTxs] at initialised
    exact initialised
  have sized : (reconstruct H sipHash cmpctblock mempoolTxs answer).Sized cmpctblock :=
    (sized_initData initialisedBefore).fillMissingTxs
  constructor
  · rintro ⟨same, -⟩
    rw [← CBlockHeaderAndShortTxIDs.txCount, ← sized.2, same, length_map]
  · intro sameCount
    have sameLength : (reconstruct H sipHash cmpctblock mempoolTxs answer).delivered.length = transactions.length := by
      rw [← length_map some, ← available, sized.2]
      exact sameCount
    have equal := eq_of_root_of_length apart sameLength (by rw [root, committed, sized.1])
    rw [equal, sized.1] at isBlock
    exact ⟨by rw [available, equal], isBlock⟩

lemma noCollision_of_lists (onNodes : ∀ string ∈ nodeStrings H transactions ++ nodeStrings H transactions',
      ∀ other ∈ nodeStrings H transactions ++ nodeStrings H transactions', H.sha3_256 string =
        H.sha3_256 other → string = other)
    (onTransactions : ∀ tx ∈ transactions ++ transactions', ∀ other ∈ transactions ++ transactions',
      tx.getHash H = other.getHash H → tx = other) : NoCollision H transactions transactions' where
  onNodes string member other member' := onNodes string (mem_append.mpr member) other (mem_append.mpr member')
  onTransactions tx member other member' := onTransactions tx (mem_append.mpr member) other (mem_append.mpr member')

def thirdPayment : CTransaction := ⟨21, [], [], 0⟩

/-- What is put together when the first payment is prefilled, the others are in the mempool, and the peer is
asked for the short id 99. -/
def received (shorttxids : List UInt64) : PartiallyDownloadedBlock :=
  reconstruct successorHash (fun _ _ txid => (txid.data.getD 0 0).toUInt64)
    ⟨⟨1, .null, buildMerkleRoot successorHash threePayments, 0, 0, 0, .null, .null⟩, 0,
      shorttxids, [⟨0, ⟨1, [], [], 0⟩⟩]⟩
    threePayments [thirdPayment]

lemma noCollision_received (shorttxids : List UInt64)
    (expected : (received shorttxids).delivered = threePayments ∨
      (received shorttxids).delivered = threePayments ++ [thirdPayment]) :
    NoCollision successorHash (received shorttxids).delivered threePayments := by
  rcases expected with same | longer
  · rw [same]
    exact noCollision_of_lists (by decide +kernel) (by decide)
  · rw [longer]
    exact noCollision_of_lists (by decide +kernel) (by decide)

theorem getBlock_sound_three_payments : (received [12, 99]).txnAvailable = threePayments.map some := by
  have returned : ((received [12, 99]).getBlock successorHash).isSome = true := by decide +kernel
  obtain ⟨block, isBlock⟩ := Option.isSome_iff_exists.mp returned
  have sound := getBlock_sound_iff successorHash _ threePayments _ threePayments [thirdPayment] block rfl
    (noCollision_received [12, 99] (.inl (by decide +kernel))) isBlock
  exact (sound.mpr rfl).1

/-- The third payment is announced and delivered twice: the merkle root is the same. -/
theorem repeated_payment_returned : (threePayments.map (CTransaction.getHash successorHash)).Nodup ∧
    NoCollision successorHash (received [12, 22, 99]).delivered threePayments ∧
    ((received [12, 22, 99]).getBlock successorHash).isSome = true ∧
    (received [12, 22, 99]).delivered = threePayments ++ [thirdPayment] := by
  have delivered : (received [12, 22, 99]).delivered = threePayments ++ [thirdPayment] := by decide +kernel
  exact ⟨by decide +kernel, noCollision_received _ (.inr delivered), by decide +kernel, delivered⟩

end PartiallyDownloadedBlock

end Dilithion
