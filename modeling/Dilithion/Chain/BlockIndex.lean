import Dilithion.Lib.SortedMap
import Dilithion.Lib.ParentTree
import Dilithion.Primitives.Block

/-! The block index: the tree of known headers with their status flags, the order in which chain tips
are preferred, and the incrementally kept set of candidate tips. A pointer to an index entry is the hash
the entry is stored under; where the code compares two pointers, it compares their addresses. -/

namespace Dilithion

open Lib LittleEndian Uint256 List

structure CBlockIndex where
  header : CBlockHeader
  pprev : Option Uint256
  pnext : Option Uint256
  nHeight : Int
  nChainWork : Uint256
  nStatus : UInt32
  nSequenceId : UInt32
  nVersion : Int32
  /-- Where the entry lies in memory. -/
  address : Nat
  deriving DecidableEq

abbrev BlockMap := Table Uint256 CBlockIndex

namespace CBlockIndex

def blockValidTransactions : UInt32 := 3
def blockValidChain : UInt32 := 4
def blockValidMask : UInt32 := 0x07
def blockHaveData : UInt32 := 0x08
def blockFailedValid : UInt32 := 0x20
def blockFailedChild : UInt32 := 0x40
def blockFailedMask : UInt32 := 0x60

variable (flags : UInt32) (pindex : CBlockIndex)

def raise : CBlockIndex := { pindex with nStatus := pindex.nStatus ||| flags }

def clear : CBlockIndex := { pindex with nStatus := pindex.nStatus &&& ~~~flags }

def isInvalid : Bool := decide (pindex.nStatus &&& blockFailedMask ≠ 0)

def haveData : Bool := decide (pindex.nStatus &&& blockHaveData ≠ 0)

/-- `BLOCK_VALID_CHAIN`: the block is on the active chain. -/
def validChain : Bool := decide (pindex.nStatus &&& blockValidChain ≠ 0)

def validLevel : UInt32 := pindex.nStatus &&& blockValidMask

lemma status_raise (mask : UInt32) (pindex : CBlockIndex) :
    (pindex.raise flags).nStatus &&& mask = (pindex.nStatus &&& mask) ||| (flags &&& mask) := by
  apply UInt32.toNat_inj.mp
  simp only [raise, UInt32.toNat_and, UInt32.toNat_or, Nat.and_or_distrib_right]

lemma status_clear (mask : UInt32) (pindex : CBlockIndex) :
    (pindex.clear flags).nStatus &&& mask = pindex.nStatus &&& (~~~flags &&& mask) :=
  UInt32.and_assoc _ _ _

lemma isInvalid_raise (failing : flags &&& blockFailedMask ≠ 0) (pindex : CBlockIndex) :
    (pindex.raise flags).isInvalid = true := by
  rw [isInvalid, status_raise, decide_eq_true_eq, Ne, UInt32.or_eq_zero_iff]
  exact fun both => failing both.2

lemma isInvalid_raise_of_valid (harmless : flags &&& blockFailedMask = 0) (pindex : CBlockIndex) :
    (pindex.raise flags).isInvalid = pindex.isInvalid := by
  rw [isInvalid, isInvalid, status_raise, harmless, UInt32.or_zero]

lemma validLevel_le_raise : pindex.validLevel ≤ (pindex.raise flags).validLevel := by
  rw [validLevel, validLevel, status_raise]
  exact Nat.left_le_or

lemma level_le_raise : flags &&& blockValidMask ≤ (pindex.raise flags).validLevel := by
  rw [validLevel, status_raise]
  exact Nat.right_le_or

lemma haveData_raise (hasData : pindex.haveData = true ∨ flags &&& blockHaveData ≠ 0) :
    (pindex.raise flags).haveData = true := by
  rw [haveData, decide_eq_true_eq, status_raise, Ne, UInt32.or_eq_zero_iff]
  rcases hasData with own | added
  · exact fun both => of_decide_eq_true own both.1
  · exact fun both => added both.2

def unflagged : CBlockIndex := pindex.clear blockFailedMask

lemma validLevel_unflagged : pindex.unflagged.validLevel = pindex.validLevel :=
  status_clear blockFailedMask blockValidMask pindex

lemma haveData_unflagged : pindex.unflagged.haveData = pindex.haveData := by
  unfold haveData unflagged
  rw [status_clear]
  rfl

lemma unflagged_raise {flags : UInt32} (failing : flags &&& ~~~blockFailedMask = 0) (pindex : CBlockIndex) :
    (pindex.raise flags).unflagged = pindex.unflagged := by
  have status := status_raise flags (~~~blockFailedMask) pindex
  rw [failing, UInt32.or_zero] at status
  exact CBlockIndex.mk.injEq .. ▸ ⟨rfl, rfl, rfl, rfl, rfl, status, rfl, rfl, rfl⟩

lemma unflagged_clear {flags : UInt32} (failing : ~~~flags &&& ~~~blockFailedMask = ~~~blockFailedMask)
    (pindex : CBlockIndex) : (pindex.clear flags).unflagged = pindex.unflagged := by
  have status := status_clear flags (~~~blockFailedMask) pindex
  rw [failing] at status
  exact CBlockIndex.mk.injEq .. ▸ ⟨rfl, rfl, rfl, rfl, rfl, status, rfl, rfl, rfl⟩

/-- `ComputeChainWork`: the quotient of the largest 64-bit number and the mantissa, written at the byte where
the exponent puts it; what lies beyond the last byte is cut off. -/
def computeChainWork (nBits : UInt32) : Uint256 :=
  let size := (nBits >>> 24).toNat
  let mantissa := (nBits &&& 0x00FFFFFF).toNat
  if mantissa = 0 then .ofNat (2 ^ 256 - 1)
  else .ofNat ((2 ^ 64 - 1) / mantissa * 256 ^ min (32 - size) 31)

/-- `AddChainWork`: the sum, or the largest number on overflow. -/
def addChainWork (a b : Uint256) : Uint256 := .ofNat (min (a.toNat + b.toNat) (2 ^ 256 - 1))

/-- The entry made for a received block: `MarkBlockReceived`, the link to the parent, `BuildChainWork`. -/
def received (block : CBlock) (parent : CBlockIndex) (address : Nat) : CBlockIndex where
  header := block.toCBlockHeader
  pprev := some block.hashPrevBlock
  pnext := none
  nHeight := parent.nHeight + 1
  nChainWork := addChainWork parent.nChainWork (computeChainWork block.nBits)
  nStatus := blockHaveData ||| blockValidTransactions
  nSequenceId := 0
  nVersion := block.nVersion
  address := address

def isOnMainChain : Bool := pindex.pnext.isSome

def isBlockACandidateForActivation : Bool :=
  !pindex.isInvalid && decide (blockValidTransactions ≤ pindex.validLevel)

end CBlockIndex

/-- `HashLessThan`: the last byte in memory is the most significant one. -/
def hashLessThan (hash target : Uint256) : Bool := memLess hash.data.reverse target.data.reverse

def chainWorkGreaterThan (work1 work2 : Uint256) : Bool := memLess work2.data.reverse work1.data.reverse

lemma memLess_iff {a b : Bytes} (size : a.length = b.length) :
    memLess a b = true ↔ value a.reverse < value b.reverse := by
  induction a generalizing b with
  | nil => simp [length_eq_zero_iff.mp size.symm, memLess]
  | cons x as ih =>
    cases b with
    | nil => cases size
    | cons y bs =>
      have sameSize : as.length = bs.length := by simpa using size
      have lowA := value_lt as.reverse
      have lowB := value_lt bs.reverse
      rw [length_reverse] at lowA lowB
      simp only [reverse_cons, value_concat, length_reverse, memLess, sameSize]
      rw [sameSize] at lowA
      -- the leading digit decides; the rest is below one unit of it
      split
      · rename_i first
        have step : 256 ^ bs.length * (x.toNat + 1) ≤ 256 ^ bs.length * y.toNat :=
          Nat.mul_le_mul_left _ (UInt8.lt_iff_toNat_lt.mp first)
        rw [Nat.mul_add] at step
        simp only [true_iff]
        omega
      · split
        · rename_i second
          have step : 256 ^ bs.length * (y.toNat + 1) ≤ 256 ^ bs.length * x.toNat :=
            Nat.mul_le_mul_left _ (UInt8.lt_iff_toNat_lt.mp second)
          rw [Nat.mul_add] at step
          simp only [Bool.false_eq_true, false_iff]
          omega
        · rename_i notFirst notSecond
          have same : x.toNat = y.toNat := by
            have := mt UInt8.lt_iff_toNat_lt.mpr notFirst
            have := mt UInt8.lt_iff_toNat_lt.mpr notSecond
            omega
          rw [ih sameSize, same]
          omega

lemma hashLessThan_iff (hash target : Uint256) : hashLessThan hash target = true ↔ hash.toNat < target.toNat := by
  rw [hashLessThan, memLess_iff (by simp), reverse_reverse, reverse_reverse, Uint256.toNat, Uint256.toNat]

lemma chainWorkGreaterThan_iff (work1 work2 : Uint256) :
    chainWorkGreaterThan work1 work2 = true ↔ work2.toNat < work1.toNat :=
  hashLessThan_iff work2 work1

lemma Uint256.less_strict : OrderedSet.StrictOn Uint256.less fun _ => True :=
  .of_key (fun hash => value hash.data.reverse) (fun _ _ => memLess_iff (by simp)) fun _ _ _ _ same =>
    Uint256.ext_data (reverse_injective (value_injective (by simp) same))

/-- `CBlockIndexWorkComparator`: more work, then the lower VDF output, then the lower sequence number,
then the lower address. -/
def workComparator (a b : CBlockIndex) : Bool :=
  if chainWorkGreaterThan a.nChainWork b.nChainWork then true
  else if chainWorkGreaterThan b.nChainWork a.nChainWork then false
  else if !a.header.vdfOutput.isNull && !b.header.vdfOutput.isNull &&
      hashLessThan a.header.vdfOutput b.header.vdfOutput then true
  else if !a.header.vdfOutput.isNull && !b.header.vdfOutput.isNull &&
      hashLessThan b.header.vdfOutput a.header.vdfOutput then false
  else if a.nSequenceId < b.nSequenceId then true
  else if b.nSequenceId < a.nSequenceId then false
  else decide (a.address < b.address)

/-- The part of the chain state that selecting a tip reads and writes. -/
structure BlockTree where
  mapBlockIndex : BlockMap
  pindexTip : Option Uint256
  setBlockIndexCandidates : List Uint256

namespace BlockTree

variable (t : BlockTree) (hash : Uint256)

def getBlockIndex : Option CBlockIndex := t.mapBlockIndex.lookup hash

/-- The entry, its `pprev`, and so on. -/
def ancestry (start : Option Uint256) : List (Uint256 × CBlockIndex) :=
  ParentTree.chain CBlockIndex.pprev t.mapBlockIndex start

/-- `GetAncestor`; the skip pointers are never set. -/
def getAncestor (height : Int) : Option Uint256 :=
  ((t.ancestry (some hash)).find? fun entry => decide (entry.2.nHeight = height)).map Prod.fst

/-- `GetAncestor` steps back as often as its counter `heightWalk` is above the height. -/
def walkBack : Nat → Uint256 → Option Uint256
  | 0, pindexWalk => some pindexWalk
  | steps + 1, pindexWalk => ((t.getBlockIndex pindexWalk).bind CBlockIndex.pprev).bind (walkBack steps)

def getAncestorWalk (height : Int) : Option Uint256 :=
  (t.getBlockIndex hash).bind fun pindex =>
    if height > pindex.nHeight ∨ height < 0 then none else t.walkBack (pindex.nHeight - height).toNat hash

/-- `AddBlockIndex`; `none` when a consensus invariant aborts the process. -/
def addBlockIndex (pindex : CBlockIndex) : Option BlockTree :=
  match t.getBlockIndex hash with
  | some existing =>
    let merged (pprev : Option Uint256) : BlockTree := { t with
      mapBlockIndex := t.mapBlockIndex.modify hash fun entry =>
        { entry with pprev := pprev, nStatus := entry.nStatus ||| pindex.nStatus } }
    if existing.nHeight ≠ pindex.nHeight then none
    else if existing.nChainWork ≠ pindex.nChainWork then none
    else match existing.pprev, pindex.pprev with
      | some known, some incoming => if known = incoming then some (merged (some known)) else none
      | none, some incoming => if (t.getBlockIndex incoming).isSome then some (merged (some incoming)) else none
      | known, none => some (merged known)
  | none =>
    let added : BlockTree := { t with mapBlockIndex := t.mapBlockIndex.insert hash pindex }
    match pindex.pprev with
    | some parent =>
      match t.getBlockIndex parent with
      | none => none
      | some above => if pindex.nHeight = above.nHeight + 1 then some added else none
    | none => if pindex.nHeight = 0 then some added else none

variable (index : BlockMap)

def precedes (a b : Uint256) : Bool :=
  match index.lookup a, index.lookup b with
  | some left, some right => workComparator left right
  | _, _ => false

def hasChildren (hash : Uint256) : Bool :=
  index.keys.any fun child => (index.lookup child).any fun pindex => decide (pindex.pprev = some hash)

def activatableLeaf (hash : Uint256) : Bool :=
  !hasChildren index hash && (index.lookup hash).any CBlockIndex.isBlockACandidateForActivation

def recomputeCandidates : BlockTree :=
  let leaves := t.mapBlockIndex.keys.filter (activatableLeaf t.mapBlockIndex)
  { t with
    setBlockIndexCandidates := leaves.foldl
      (fun candidates hash => OrderedSet.insert (precedes t.mapBlockIndex) hash candidates) [] }

def markBlockAsFailed : BlockTree :=
  let target := t.mapBlockIndex.modify hash (CBlockIndex.raise CBlockIndex.blockFailedValid)
  let marked := ParentTree.markBelow CBlockIndex.pprev (CBlockIndex.raise CBlockIndex.blockFailedChild)
    (fun _ => true) target hash
  { t with
    mapBlockIndex := marked.1
    setBlockIndexCandidates := marked.2.foldl
      (fun candidates failed => OrderedSet.erase (precedes marked.1) failed candidates) t.setBlockIndexCandidates }

def markBlockAsValid : BlockTree :=
  let target := t.mapBlockIndex.modify hash (CBlockIndex.clear CBlockIndex.blockFailedMask)
  -- a descendant that failed on its own account stays invalid and bars the way to its descendants
  let marked := ParentTree.markBelow CBlockIndex.pprev (CBlockIndex.clear CBlockIndex.blockFailedChild)
    (fun pindex => !pindex.isInvalid) target hash
  recomputeCandidates { t with mapBlockIndex := marked.1 }

def invalidateBlockImpl : Bool × BlockTree :=
  match t.getBlockIndex hash with
  | none => (false, t)
  | some _ => (true, (t.markBlockAsFailed hash).recomputeCandidates)

def reconsiderBlockImpl : Bool × BlockTree :=
  match t.getBlockIndex hash with
  | none => (false, t)
  | some _ => (true, t.markBlockAsValid hash)

inductive Verdict where
  | clean
  | invalidAncestor
  | missingData
  deriving DecidableEq, Repr

/-- The walk up from a candidate; it ends at the first entry known to have its data. -/
def walkAncestry (pindexTip : Option Uint256) (pindexNew : Uint256) : List (Uint256 × CBlockIndex) → Verdict
  | [] => .clean
  | (hash, pancestor) :: rest =>
    if pancestor.isInvalid then .invalidAncestor
    else if pindexTip = some hash then .clean
    else if pancestor.isOnMainChain then .clean
    else if pancestor.nHeight = 0 then .clean
    else if hash ≠ pindexNew ∧ !pancestor.haveData then .missingData
    else walkAncestry pindexTip pindexNew rest

def verdict : Verdict := walkAncestry t.pindexTip hash (t.ancestry (some hash))

/-- A candidate below a failed block is marked, unless it is marked already. -/
def failLeaf : BlockTree :=
  { t with mapBlockIndex := t.mapBlockIndex.modify hash fun pindex =>
      if pindex.isInvalid then pindex else pindex.raise CBlockIndex.blockFailedChild }

def findMostWorkFrom (t : BlockTree) : List Uint256 → Option Uint256 × BlockTree
  | [] => (none, { t with setBlockIndexCandidates := [] })
  | hash :: rest =>
    match t.verdict hash with
    | .clean => (some hash, { t with setBlockIndexCandidates := hash :: rest })
    | .invalidAncestor => (t.failLeaf hash).findMostWorkFrom rest
    | .missingData => t.findMostWorkFrom rest

def findMostWorkChainImpl : Option Uint256 × BlockTree :=
  t.findMostWorkFrom t.setBlockIndexCandidates

end BlockTree

/-! The validity level in the low bits of a status. `RaiseValidity` treats it as a number; a merge, a connect and a
disconnect set and clear bits of it. -/

inductive StatusOp where
  | addBlockIndex (nStatus : UInt32)
  | markBlockReceived
  | raiseValidity (level : UInt32)
  | connectTip
  | disconnectTip
  deriving DecidableEq

namespace CBlockIndex

def blockValidScripts : UInt32 := 5

section

variable (pindex : CBlockIndex)

def raiseValidity (level : UInt32) : Bool × CBlockIndex :=
  if pindex.validLevel < level &&& blockValidMask then
    (true, (pindex.clear blockValidMask).raise (level &&& blockValidMask))
  else (false, pindex)

def markBlockReceived : CBlockIndex := ((pindex.raise blockHaveData).raiseValidity blockValidTransactions).2

def update : StatusOp → CBlockIndex
  | .addBlockIndex nStatus => pindex.raise nStatus
  | .markBlockReceived => pindex.markBlockReceived
  | .raiseValidity level => (pindex.raiseValidity level).2
  | .connectTip => pindex.raise (blockValidChain ||| blockHaveData)
  | .disconnectTip => pindex.clear blockValidChain

/-- The level that an operation raises a block to. -/
def raisedBy : StatusOp → UInt32
  | .addBlockIndex nStatus => nStatus &&& blockValidMask
  | .markBlockReceived => blockValidTransactions
  | .raiseValidity level => level &&& blockValidMask
  | .connectTip => blockValidChain
  | .disconnectTip => 0

/-- The bits of the two levels make one of the two, and those of a block with data are not cleared. -/
def Orderly (op : StatusOp) : Prop :=
  raisedBy op ≤ blockValidScripts ∧
    match op with
    | .addBlockIndex _ | .connectTip =>
      pindex.validLevel ||| raisedBy op = pindex.validLevel ∨ pindex.validLevel ||| raisedBy op = raisedBy op
    | .disconnectTip => pindex.haveData = true → pindex.validLevel < blockValidChain
    | _ => True

end

variable {pindex : CBlockIndex}

lemma validLevel_raiseValidity (pindex : CBlockIndex) (level : UInt32) :
    (pindex.raiseValidity level).2.haveData = pindex.haveData ∧
      ((pindex.raiseValidity level).2.validLevel = pindex.validLevel ∧ level &&& blockValidMask ≤ pindex.validLevel ∨
        pindex.validLevel < level &&& blockValidMask ∧
        (pindex.raiseValidity level).2.validLevel = level &&& blockValidMask) := by
  unfold raiseValidity
  split
  case isTrue lower =>
    refine ⟨?_, .inr ⟨lower, ?_⟩⟩
    · have outside : level &&& blockValidMask &&& blockHaveData = 0 := by rw [UInt32.and_assoc]; exact UInt32.and_zero
      rw [haveData, status_raise, status_clear, outside, UInt32.or_zero]
      rfl
    · rw [validLevel, status_raise, status_clear, UInt32.and_assoc]
      change pindex.nStatus &&& 0 ||| level &&& blockValidMask = _
      rw [UInt32.and_zero, UInt32.zero_or]
  case isFalse high => exact ⟨rfl, .inl ⟨rfl, UInt32.not_lt.mp high⟩⟩

lemma raise_update {flags : UInt32} (one : pindex.validLevel ||| flags &&& blockValidMask = pindex.validLevel ∨
      pindex.validLevel ||| flags &&& blockValidMask = flags &&& blockValidMask) :
    (pindex.raise flags).validLevel = pindex.validLevel ∨
        (pindex.raise flags).validLevel = flags &&& blockValidMask := by
  rwa [validLevel, status_raise]

lemma markBlockReceived_spec (pindex : CBlockIndex) : pindex.markBlockReceived.haveData = true ∧
    blockValidTransactions ≤ pindex.markBlockReceived.validLevel ∧
    pindex.validLevel ≤ pindex.markBlockReceived.validLevel ∧
    (pindex.markBlockReceived.validLevel = pindex.validLevel ∨
      pindex.markBlockReceived.validLevel = blockValidTransactions) := by
  have same : (pindex.raise blockHaveData).validLevel = pindex.validLevel := by
    rw [validLevel, status_raise]
    exact UInt32.or_zero
  obtain ⟨data, kept⟩ := validLevel_raiseValidity (pindex.raise blockHaveData) blockValidTransactions
  rw [same] at kept
  refine ⟨data.trans (haveData_raise _ _ (.inr (by decide))), ?_⟩
  unfold markBlockReceived
  rcases kept with ⟨kept, high⟩ | ⟨low, raised⟩
  · rw [kept]
    exact ⟨high, UInt32.le_rfl, .inl rfl⟩
  · rw [raised]
    exact ⟨UInt32.le_rfl, UInt32.le_of_lt low, .inr rfl⟩

/-- An orderly operation keeps the level or makes it the one it raises to; only a disconnect without data lowers it. -/
lemma validLevel_update {op : StatusOp} (orderly : pindex.Orderly op) :
    ((pindex.update op).validLevel ≤ pindex.validLevel ∨ (pindex.update op).validLevel = raisedBy op) ∧
      (pindex.haveData = true → (pindex.update op).haveData = true ∧
        pindex.validLevel ≤ (pindex.update op).validLevel) := by
  obtain ⟨-, orderly⟩ := orderly
  cases op with
  | addBlockIndex | connectTip =>
    exact ⟨(raise_update orderly).imp_left UInt32.le_of_eq,
      fun own => ⟨haveData_raise _ _ (.inl own), validLevel_le_raise ..⟩⟩
  | markBlockReceived =>
    obtain ⟨data, -, higher, level⟩ := pindex.markBlockReceived_spec
    exact ⟨level.imp_left UInt32.le_of_eq, fun _ => ⟨data, higher⟩⟩
  | raiseValidity level =>
    obtain ⟨data, ⟨kept, -⟩ | ⟨higher, raised⟩⟩ := validLevel_raiseValidity pindex level
    · rw [update, kept, data]
      exact ⟨.inl UInt32.le_rfl, fun own => ⟨own, UInt32.le_rfl⟩⟩
    · rw [update, raised, data]
      exact ⟨.inr rfl, fun own => ⟨own, UInt32.le_of_lt higher⟩⟩
  | disconnectTip =>
    have level : (pindex.clear blockValidChain).validLevel = pindex.validLevel &&& 3 := by
      rw [validLevel, status_clear, validLevel, UInt32.and_assoc]
      rfl
    rw [update, level, UInt32.le_iff_toNat_le, UInt32.le_iff_toNat_le, UInt32.toNat_and]
    refine ⟨.inl Nat.and_le_left, fun own => ⟨?_, ?_⟩⟩
    · rw [haveData, status_clear]
      exact own
    · have low := UInt32.lt_iff_toNat_lt.mp (orderly own)
      exact (Nat.and_two_pow_sub_one_of_lt_two_pow (n := 2) low).ge

structure Levels (ops : List StatusOp) (pindex : CBlockIndex) : Prop where
  defined : pindex.validLevel ≤ blockValidScripts
  received : .markBlockReceived ∈ ops → pindex.haveData = true ∧ blockValidTransactions ≤ pindex.validLevel
  raised : ∀ level ≤ pindex.validLevel, level = 0 ∨ ∃ op ∈ ops, level ≤ raisedBy op

/-- In a run of orderly operations on a new entry the level is a defined one, no higher than one the block was
raised to, and that of a received block is never below `BLOCK_VALID_TRANSACTIONS` again. -/
theorem levels_of_updates (start : CBlockIndex) (new : start.validLevel = 0) {ops : List StatusOp}
    (steps : EachStep (fun earlier op => (earlier.foldl update start).Orderly op) ops) :
    Levels ops (ops.foldl update start) := by
  induction ops using List.reverseRecOn with
  | nil =>
    rw [List.foldl_nil]
    exact ⟨new ▸ by decide, nofun, fun level low => .inl (UInt32.le_zero_iff.mp (new ▸ low))⟩
  | append_singleton earlier op ih =>
    obtain ⟨defined, received, raised⟩ := ih steps.front
    obtain ⟨bounded, stays⟩ := validLevel_update steps.last
    rw [List.foldl_append]
    refine ⟨?_, ?_, ?_⟩
    · rcases bounded with lower | raises
      · exact UInt32.le_trans lower defined
      · exact raises ▸ steps.last.1
    · intro inside
      rcases List.mem_append.mp inside with before | here
      · obtain ⟨hasData, high⟩ := received before
        exact ⟨(stays hasData).1, UInt32.le_trans high (stays hasData).2⟩
      · cases List.mem_singleton.mp here
        obtain ⟨data, high, -⟩ := (earlier.foldl update start).markBlockReceived_spec
        exact ⟨data, high⟩
    · intro level low
      rcases bounded with lower | raises
      · refine (raised level (UInt32.le_trans low lower)).imp_right ?_
        rintro ⟨other, inside, high⟩
        exact ⟨other, List.mem_append_left _ inside, high⟩
      · exact .inr ⟨op, by simp, raises ▸ low⟩

def newEntry : CBlockIndex := ⟨⟨1, .null, .null, 0, 0, 0, .null, .null⟩, none, none, 0, .null, 0, 0, 1, 0⟩

theorem levels_of_received_block :
    Levels [.addBlockIndex 1, .markBlockReceived] (newEntry.raise 1).markBlockReceived := by
  refine levels_of_updates newEntry rfl (EachStep.concat (EachStep.concat .nil ⟨by decide, .inr (by decide)⟩) ?_)
  exact ⟨by decide, trivial⟩

/-- A received block that is connected has a level that is not defined. -/
theorem undefined_level_of_connected_block : ([.markBlockReceived, .connectTip].foldl update newEntry).validLevel = 7 ∧
    ¬ Levels [.markBlockReceived, .connectTip] ([.markBlockReceived, .connectTip].foldl update newEntry) :=
  ⟨by decide, fun levels => absurd levels.defined (by decide)⟩

end CBlockIndex
end Dilithion
