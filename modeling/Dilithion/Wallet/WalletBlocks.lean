import Dilithion.Consensus.Validation
import Dilithion.Lib.ParentTree

/-! The wallet's outputs follow the chain. Connecting a block adds the outputs that pay to the wallet and
marks those that are spent; disconnecting it takes its outputs out and marks its inputs unspent, whichever
transaction spent them. That inverts the connecting as long as no output is spent by two blocks. -/

namespace Dilithion

open Lib List Option

structure CDilithiumAddress where
  vchData : Bytes
  deriving DecidableEq

namespace CDilithiumAddress

def isValid (address : CDilithiumAddress) : Bool := decide (address.vchData.length = 21)

def getPubKeyHash (address : CDilithiumAddress) : Bytes := if address.isValid then address.vchData.drop 1 else []

end CDilithiumAddress

def WalletCrypto.extractPubKeyHash (scriptPubKey : Bytes) : Bytes :=
  let size := (scriptPubKey.getD 2 0).toNat
  if scriptPubKey.take 2 = [0x76, 0xa9] ∧ (size = 20 ∨ size = 32) ∧ scriptPubKey.length = 3 + size + 2 ∧
      scriptPubKey.drop (3 + size) = [0x88, 0xac] then
    (scriptPubKey.drop 3).take size
  else []

structure CWalletTx where
  txid : Uint256
  vout : UInt32
  nValue : Int64
  address : CDilithiumAddress
  fSpent : Bool
  fCoinbase : Bool
  nHeight : UInt32
  deriving DecidableEq

structure CWallet where
  vchAddresses : List CDilithiumAddress
  mapWalletTx : Table COutPoint CWalletTx

namespace CWallet

variable (H : HashFunctions) (vchAddresses : List CDilithiumAddress)

def ownerOf (out : CTxOut) : Option CDilithiumAddress :=
  let scriptPKH := WalletCrypto.extractPubKeyHash out.scriptPubKey
  if scriptPKH.isEmpty then none else vchAddresses.find? fun address => decide (address.getPubKeyHash = scriptPKH)

def outpoints (tx : CTransaction) : List COutPoint :=
  tx.vout.zipIdx.map fun output => ⟨tx.getHash H, .ofNat output.2⟩

def walletOutputs (height : Int32) (tx : CTransaction) : List (COutPoint × CWalletTx) :=
  tx.vout.zipIdx.filterMap fun output => (ownerOf vchAddresses output.1).map fun address =>
    (⟨tx.getHash H, .ofNat output.2⟩,
      ⟨tx.getHash H, .ofNat output.2, output.1.nValue.toInt64, address, false, tx.isCoinBase, height.toUInt32⟩)

def inputs (tx : CTransaction) : List COutPoint := if tx.isCoinBase then [] else tx.vin.map CTxIn.prevout

def setSpent (fSpent : Bool) (map : Table COutPoint CWalletTx) (outpoint : COutPoint) : Table COutPoint CWalletTx :=
  map.modify outpoint fun entry => { entry with fSpent := fSpent }

def connectTx (height : Int32) (map : Table COutPoint CWalletTx) (tx : CTransaction) : Table COutPoint CWalletTx :=
  (inputs tx).foldl (setSpent true)
    ((walletOutputs H vchAddresses height tx).foldl (fun map item => map.insert item.1 item.2) map)

/-- An output leaves if it was entered at the height. -/
def removeAt (height : Int32) (map : Table COutPoint CWalletTx) (outpoint : COutPoint) : Table COutPoint CWalletTx :=
  if (map.lookup outpoint).any fun entry => decide (entry.nHeight = height.toUInt32) then map.erase outpoint else map

def disconnectTx (height : Int32) (map : Table COutPoint CWalletTx) (tx : CTransaction) : Table COutPoint CWalletTx :=
  (outpoints H tx).foldl (removeAt height) ((inputs tx).foldl (setSpent false) map)

/-- The transactions of a block that the wallet looks at: none if it has no address or cannot read the block. -/
def seen (block : CBlock) : List CTransaction :=
  if vchAddresses.all fun address => address.getPubKeyHash.isEmpty then []
  else match CBlockValidator.deserializeBlockTransactions block with
    | .error _ => []
    | .ok transactions => transactions

def blockConnected (wallet : CWallet) (block : CBlock) (height : Int32) : CWallet :=
  { wallet with
    mapWalletTx := (seen wallet.vchAddresses block).foldl (connectTx H wallet.vchAddresses height) wallet.mapWalletTx }

def blockDisconnected (wallet : CWallet) (block : CBlock) (height : Int32) : CWallet :=
  { wallet with mapWalletTx := (seen wallet.vchAddresses block).foldl (disconnectTx H height) wallet.mapWalletTx }

def transactionsOf : List (CBlock × Int32) → List (Int32 × CTransaction)
  | [] => []
  | (block, height) :: below => transactionsOf below ++ (seen vchAddresses block).map (height, ·)

def created (txs : List (Int32 × CTransaction)) : List (COutPoint × CWalletTx) :=
  txs.flatMap fun entry => walletOutputs H vchAddresses entry.1 entry.2

def spent (txs : List (Int32 × CTransaction)) (outpoint : COutPoint) : Bool :=
  txs.any fun entry => decide (outpoint ∈ inputs entry.2)

def allOutpoints (txs : List (Int32 × CTransaction)) : List COutPoint := txs.flatMap fun entry => outpoints H entry.2

/-- Calls from an empty wallet on; a block is connected where it is `allowed`, and the last one disconnected. -/
inductive Run (allowed : List (Int32 × CTransaction) → List (Int32 × CTransaction) → Prop) :
    CWallet → List (CBlock × Int32) → Prop
  | start : Run allowed ⟨vchAddresses, ∅⟩ []
  | connect {wallet : CWallet} {chain : List (CBlock × Int32)} {block : CBlock} {height : Int32} :
      Run allowed wallet chain →
      allowed (transactionsOf vchAddresses chain) ((seen vchAddresses block).map (height, ·)) →
      Run allowed (wallet.blockConnected H block height) ((block, height) :: chain)
  | disconnect {wallet : CWallet} {chain : List (CBlock × Int32)} {block : CBlock} {height : Int32} :
      Run allowed wallet ((block, height) :: chain) → Run allowed (wallet.blockDisconnected H block height) chain

variable {H vchAddresses} {map : Table COutPoint CWalletTx} {txs block : List (Int32 × CTransaction)} {height : Int32}
  {tx : CTransaction} {outpoint : COutPoint} {entry base : CWalletTx}

lemma spent_append : spent (txs ++ block) outpoint = (spent txs outpoint || spent block outpoint) := any_append

lemma created_append : created H vchAddresses (txs ++ block) =
    created H vchAddresses txs ++ created H vchAddresses block :=
  flatMap_append

lemma mem_walletOutputs (member : (outpoint, base) ∈ walletOutputs H vchAddresses height tx) :
    outpoint ∈ outpoints H tx ∧ base.nHeight = height.toUInt32 ∧ base.fSpent = false := by
  obtain ⟨output, isOutput, owned⟩ := mem_filterMap.mp member
  obtain ⟨address, -, made⟩ := map_eq_some_iff.mp owned
  cases made
  exact ⟨mem_map_of_mem isOutput, rfl, rfl⟩

lemma outpoints_of_created (member : (outpoint, base) ∈ created H vchAddresses txs) :
    outpoint ∈ allOutpoints H txs ∧ base.fSpent = false := by
  obtain ⟨item, isItem, output⟩ := mem_flatMap.mp member
  obtain ⟨inside, -, unspent⟩ := mem_walletOutputs output
  exact ⟨mem_flatMap.mpr ⟨item, isItem, inside⟩, unspent⟩

lemma walletOutputs_sublist : ((walletOutputs H vchAddresses height tx).map Prod.fst).Sublist (outpoints H tx) := by
  unfold walletOutputs outpoints
  generalize tx.vout.zipIdx = outputs
  induction outputs with
  | nil => exact List.Sublist.refl _
  | cons output rest ih =>
    cases owner : ownerOf vchAddresses output.1 with
    | none => simpa [owner] using ih.cons _
    | some address => simpa [owner] using ih

lemma lookup_foldl_setSpent (flag : Bool) (names : List COutPoint) :
    (names.foldl (setSpent flag) map).lookup outpoint =
      (map.lookup outpoint).map fun entry => if outpoint ∈ names then { entry with fSpent := flag } else entry := by
  induction names generalizing map with
  | nil => simp
  | cons name rest ih =>
    rw [foldl_cons, ih, setSpent, Table.lookup_modify]
    by_cases here : outpoint = name
    · cases map.lookup outpoint <;> simp [here]
    · simp [here]

lemma lookup_foldl_insert {items : List (COutPoint × CWalletTx)} (distinct : (items.map Prod.fst).Nodup)
    (fresh : ∀ item ∈ items, map.lookup item.1 = none) :
    (items.foldl (fun map item => map.insert item.1 item.2) map).lookup outpoint = some entry ↔
      (outpoint, entry) ∈ items ∨ map.lookup outpoint = some entry := by
  induction items generalizing map with
  | nil => simp
  | cons item rest ih =>
    rw [map_cons, nodup_cons] at distinct
    have different : ∀ other ∈ rest, other.1 ≠ item.1 := fun other later same =>
      distinct.1 (same ▸ mem_map_of_mem later)
    have absent := fresh item mem_cons_self
    rw [foldl_cons, ih distinct.2 fun other later => by
      rw [AList.lookup_insert_ne (different other later)]
      exact fresh other (mem_cons_of_mem _ later)]
    by_cases here : outpoint = item.1
    · subst here
      rw [AList.lookup_insert, absent, mem_cons, Prod.ext_iff]
      simp only [true_and, eq_comm, some.injEq, reduceCtorEq, or_false]
      exact or_comm
    · rw [mem_cons, Prod.ext_iff]
      simp [here]

variable (H vchAddresses txs map) in
/-- The map holds the wallet's outputs of the chain, marked where the chain spends them. -/
def Follows : Prop :=
  ∀ outpoint entry, map.lookup outpoint = some entry ↔
    ∃ base, (outpoint, base) ∈ created H vchAddresses txs ∧ entry = { base with fSpent := spent txs outpoint }

lemma Follows.connectTx (follows : Follows H vchAddresses map txs)
    (distinct : (allOutpoints H (txs ++ [(height, tx)])).Nodup)
    (unspent : ∀ outpoint ∈ outpoints H tx, spent txs outpoint = false) :
    Follows H vchAddresses (connectTx H vchAddresses height map tx) (txs ++ [(height, tx)]) := by
  simp only [allOutpoints, flatMap_append, flatMap_singleton, nodup_append] at distinct
  obtain ⟨-, distinctNew, apart⟩ := distinct
  have fresh : ∀ item ∈ walletOutputs H vchAddresses height tx, map.lookup item.1 = none := by
    intro item member
    by_contra present
    obtain ⟨entry, found⟩ := ne_none_iff_exists'.mp present
    obtain ⟨base, old, -⟩ := (follows item.1 entry).mp found
    exact apart _ (outpoints_of_created old).1 _ (mem_walletOutputs member).1 rfl
  intro outpoint entry
  unfold CWallet.connectTx
  rw [lookup_foldl_setSpent, map_eq_some_iff, created_append]
  simp only [lookup_foldl_insert (distinctNew.sublist walletOutputs_sublist) fresh, follows outpoint, mem_append,
    created, spent, flatMap_singleton]
  constructor
  · rintro ⟨stored, new | ⟨base, old, rfl⟩, rfl⟩
    · have unspentNew := unspent outpoint (mem_walletOutputs new).1
      rw [spent] at unspentNew
      refine ⟨stored, .inr new, ?_⟩
      by_cases spends : outpoint ∈ inputs tx
      · simp [spends]
      · simp [spends, unspentNew, ← (mem_walletOutputs new).2.2]
    · refine ⟨base, .inl old, ?_⟩
      by_cases spends : outpoint ∈ inputs tx <;> simp [spends]
  · rintro ⟨base, old | new, rfl⟩
    · refine ⟨_, .inr ⟨base, old, rfl⟩, ?_⟩
      by_cases spends : outpoint ∈ inputs tx <;> simp [spends]
    · have unspentNew := unspent outpoint (mem_walletOutputs new).1
      rw [spent] at unspentNew
      refine ⟨base, .inl new, ?_⟩
      by_cases spends : outpoint ∈ inputs tx
      · simp [spends]
      · simp [spends, unspentNew, ← (mem_walletOutputs new).2.2]

lemma Follows.connectBlock (follows : Follows H vchAddresses map txs) {added : List CTransaction}
    (distinct : (allOutpoints H (txs ++ added.map (height, ·))).Nodup)
    (inOrder : ∀ before tx after, added = before ++ tx :: after → ∀ outpoint ∈ outpoints H tx,
      spent (txs ++ before.map (height, ·)) outpoint = false) :
    Follows H vchAddresses (added.foldl (CWallet.connectTx H vchAddresses height) map)
      (txs ++ added.map (height, ·)) := by
  induction added using reverseRecOn with
  | nil => simpa using follows
  | append_singleton before tx ih =>
    rw [foldl_concat, map_append, ← append_assoc] at *
    refine (ih ?_ ?_).connectTx distinct (inOrder before tx [] rfl)
    · rw [allOutpoints, flatMap_append] at distinct
      exact distinct.of_append_left
    · rintro front later after rfl
      exact inOrder front later (after ++ [tx]) (by simp)

lemma lookup_foldl_removeAt (names : List COutPoint) : (names.foldl (removeAt height) map).lookup outpoint =
    (map.lookup outpoint).bind fun entry =>
      if outpoint ∈ names ∧ entry.nHeight = height.toUInt32 then none else some entry := by
  induction names generalizing map with
  | nil => simp
  | cons name rest ih =>
    rw [foldl_cons, ih]
    unfold removeAt
    by_cases here : outpoint = name
    · subst here
      cases found : map.lookup outpoint with
      | none => simp [found]
      | some entry => by_cases same : entry.nHeight = height.toUInt32 <;> simp [found, same]
    · split <;> simp [here]

/-- Whatever comes off marks its inputs unspent, and its own outputs are gone. -/
lemma lookup_foldl_disconnectTx (removed : List CTransaction) :
    (removed.foldl (disconnectTx H height) map).lookup outpoint = (map.lookup outpoint).bind fun entry =>
        if outpoint ∈ allOutpoints H (removed.map (height, ·)) ∧ entry.nHeight = height.toUInt32 then none
        else some { entry with fSpent := entry.fSpent && !spent (removed.map (height, ·)) outpoint } := by
  induction removed generalizing map with
  | nil =>
    rw [foldl_nil]
    cases map.lookup outpoint <;> simp [spent, allOutpoints]
  | cons tx rest ih =>
    rw [foldl_cons, ih, disconnectTx, lookup_foldl_removeAt, lookup_foldl_setSpent]
    cases map.lookup outpoint with
    | none => rfl
    | some entry =>
      by_cases spends : outpoint ∈ inputs tx <;> by_cases made : outpoint ∈ outpoints H tx <;>
        by_cases same : entry.nHeight = height.toUInt32 <;>
        simp [spent, allOutpoints, spends, made, same]

lemma Follows.disconnectBlock {removed : List CTransaction}
    (follows : Follows H vchAddresses map (txs ++ removed.map (height, ·)))
    (distinct : (allOutpoints H (txs ++ removed.map (height, ·))).Nodup)
    (once : ∀ outpoint, spent (removed.map (height, ·)) outpoint = true → spent txs outpoint = false) :
    Follows H vchAddresses (removed.foldl (disconnectTx H height) map) txs := by
  rw [allOutpoints, flatMap_append, nodup_append] at distinct
  obtain ⟨-, -, apart⟩ := distinct
  intro outpoint entry
  have sameFlag : ((spent txs outpoint || spent (removed.map (height, ·)) outpoint) &&
      !spent (removed.map (height, ·)) outpoint) =
      spent txs outpoint := by
    cases spends : spent (removed.map (height, ·)) outpoint with
    | true => simp [once outpoint spends]
    | false => simp
  rw [lookup_foldl_disconnectTx, bind_eq_some_iff]
  constructor
  · rintro ⟨stored, found, stays⟩
    obtain ⟨base, member, rfl⟩ := (follows outpoint stored).mp found
    rw [created_append, mem_append] at member
    split at stays
    · cases stays
    · rename_i kept
      cases stays
      rcases member with old | new
      · exact ⟨base, old, by rw [spent_append, sameFlag]⟩
      · obtain ⟨item, isItem, output⟩ := mem_flatMap.mp new
        obtain ⟨tx, -, rfl⟩ := mem_map.mp isItem
        obtain ⟨inside, sameHeight, -⟩ := mem_walletOutputs output
        exact absurd ⟨mem_flatMap.mpr ⟨_, isItem, inside⟩, sameHeight⟩ kept
  · rintro ⟨base, old, rfl⟩
    have kept : outpoint ∉ allOutpoints H (removed.map (height, ·)) := fun inside =>
      apart _ (outpoints_of_created old).1 _ inside rfl
    refine ⟨_, (follows outpoint _).mpr ⟨base, by rw [created_append]; exact mem_append_left _ old, rfl⟩, ?_⟩
    rw [if_neg fun both => kept both.1, spent_append, sameFlag]

/-- What a block on a chain must satisfy: its outputs are new and not spent before they are there, and it
spends nothing that the chain has spent. -/
structure Extends (H : HashFunctions) (txs block : List (Int32 × CTransaction)) : Prop where
  distinct : (allOutpoints H (txs ++ block)).Nodup
  inOrder : ∀ before entry after, block = before ++ entry :: after → ∀ outpoint ∈ outpoints H entry.2,
    spent (txs ++ before) outpoint = false
  once : ∀ outpoint, spent block outpoint = true → spent txs outpoint = false

variable (H vchAddresses) in
def Valid : List (CBlock × Int32) → Prop
  | [] => True
  | (block, height) :: below =>
    Extends H (transactionsOf vchAddresses below) ((seen vchAddresses block).map (height, ·)) ∧ Valid below

lemma Run.follows {wallet : CWallet} {chain : List (CBlock × Int32)}
    (run : Run H vchAddresses (Extends H) wallet chain) :
    wallet.vchAddresses = vchAddresses ∧ Valid H vchAddresses chain ∧
      Follows H vchAddresses wallet.mapWalletTx (transactionsOf vchAddresses chain) := by
  induction run with
  | start => exact ⟨rfl, trivial, fun outpoint entry => by simp [transactionsOf, created]⟩
  | @connect wallet chain block height _ extends_ ih =>
    obtain ⟨rfl, valid, follows⟩ := ih
    refine ⟨rfl, ⟨extends_, valid⟩, follows.connectBlock extends_.distinct ?_⟩
    intro before tx after split outpoint member
    exact extends_.inOrder (before.map (height, ·)) (height, tx) (after.map (height, ·))
      (by simp [split]) outpoint member
  | @disconnect wallet chain block height _ ih =>
    obtain ⟨rfl, ⟨extends_, valid⟩, follows⟩ := ih
    exact ⟨rfl, valid, follows.disconnectBlock extends_.distinct extends_.once⟩

/-! A reward paid to the wallet's one address, and payments of it. Ids are version numbers. -/

def versionHash : HashFunctions := ⟨fun data => .ofNat (LittleEndian.value (data.take 4)), fun _ => .null⟩

def walletAddress : CDilithiumAddress := ⟨0 :: List.replicate 20 7⟩

def reward : CTransaction :=
  ⟨1, [⟨⟨.null, 0xffffffff⟩, [], 0⟩], [⟨50, [0x76, 0xa9, 20] ++ List.replicate 20 7 ++ [0x88, 0xac]⟩], 0⟩

/-- The reward is paid to nobody in particular. -/
def payment (nVersion : Int32) : CTransaction := ⟨nVersion, [⟨⟨.ofNat 1, 0⟩, [], 0⟩], [⟨40, []⟩], 0⟩

def soleBlock (tx : CTransaction) : CBlock := ⟨⟨1, .null, .null, 0, 0, 0, .null, .null⟩, 1 :: tx.serialize⟩

/-- After any such run the outputs not marked spent are the wallet's unspent outputs of the chain. -/
theorem unspent_iff_of_run (H : HashFunctions) (vchAddresses : List CDilithiumAddress) (wallet : CWallet)
    (chain : List (CBlock × Int32)) (run : Run H vchAddresses (Extends H) wallet chain) (outpoint : COutPoint)
    (entry : CWalletTx) :
    wallet.mapWalletTx.lookup outpoint = some entry ∧ entry.fSpent = false ↔
      (outpoint, entry) ∈ created H vchAddresses (transactionsOf vchAddresses chain) ∧
        spent (transactionsOf vchAddresses chain) outpoint = false := by
  rw [run.follows.2.2 outpoint entry]
  constructor
  · rintro ⟨⟨base, member, rfl⟩, unspent⟩
    have same : { base with fSpent := spent (transactionsOf vchAddresses chain) outpoint } = base := by
      rw [show spent _ outpoint = base.fSpent from unspent.trans (outpoints_of_created member).2.symm]
    exact ⟨by rwa [same], unspent⟩
  · rintro ⟨member, unspent⟩
    refine ⟨⟨entry, member, ?_⟩, (outpoints_of_created member).2⟩
    rw [unspent, ← (outpoints_of_created member).2]

lemma extends_singleton (distinct : (allOutpoints H (txs ++ [(height, tx)])).Nodup)
    (fresh : ∀ outpoint ∈ outpoints H tx ++ inputs tx, spent txs outpoint = false) : Extends H txs [(height, tx)] where
  distinct := distinct
  inOrder before entry after split outpoint member := by
    cases before with
    | nil =>
      cases split
      simpa using fresh outpoint (mem_append_left _ member)
    | cons first rest => simp at split
  once outpoint spends := fresh outpoint (mem_append_right _ (by simpa [spent] using spends))

def payingWallet : CWallet :=
  (blockConnected versionHash ⟨[walletAddress], ∅⟩ (soleBlock reward) 1).blockConnected versionHash
    (soleBlock (payment 2)) 2

theorem unspent_after_reorg :
    (payingWallet.blockDisconnected versionHash (soleBlock (payment 2)) 2).mapWalletTx.lookup ⟨.ofNat 1, 0⟩ =
      some ⟨.ofNat 1, 0, 50, walletAddress, false, true, 1⟩ := by
  have run : Run versionHash [walletAddress] (Extends versionHash) payingWallet
      [(soleBlock (payment 2), 2), (soleBlock reward, 1)] := by
    refine .connect (.connect .start ?_) ?_
    · exact extends_singleton (by decide) (by decide)
    · exact extends_singleton (by decide) (by decide)
  exact ((unspent_iff_of_run versionHash [walletAddress] _ _ run.disconnect ⟨.ofNat 1, 0⟩
    ⟨.ofNat 1, 0, 50, walletAddress, false, true, 1⟩).mpr ⟨by decide, by decide⟩).1

/-- A second block spends the reward again; when it comes off, the reward is unspent for the wallet. -/
theorem second_spend_unmarks :
    Run versionHash [walletAddress] (fun txs block => (allOutpoints versionHash (txs ++ block)).Nodup)
        ((payingWallet.blockConnected versionHash (soleBlock (payment 3)) 3).blockDisconnected versionHash
          (soleBlock (payment 3)) 3)
        [(soleBlock (payment 2), 2), (soleBlock reward, 1)] ∧
      ((payingWallet.blockConnected versionHash (soleBlock (payment 3)) 3).blockDisconnected versionHash
        (soleBlock (payment 3)) 3).mapWalletTx.lookup ⟨.ofNat 1, 0⟩ =
          some ⟨.ofNat 1, 0, 50, walletAddress, false, true, 1⟩ ∧
      spent (transactionsOf [walletAddress] [(soleBlock (payment 2), 2), (soleBlock reward, 1)])
        ⟨.ofNat 1, 0⟩ = true := by
  refine ⟨.disconnect (.connect (.connect (.connect .start ?_) ?_) ?_), ?_, ?_⟩
  all_goals decide

end CWallet

end Dilithion
