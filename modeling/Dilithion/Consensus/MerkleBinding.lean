import Dilithion.Lib.MerkleTree
import Dilithion.Consensus.Validation

/-! The merkle root of a block commits to its transactions. An odd level is completed with a copy of its
last hash, so lists with repeated transactions can share a root; the check for duplicate ids rules them
out. -/

namespace Dilithion

open Lib CBlockValidator CTransaction MerkleTree List

def nodeString (pair : Uint256 × Uint256) : Bytes := pair.1.data ++ pair.2.data

variable (H : HashFunctions)

def merkleNode (pair : Uint256 × Uint256) : Uint256 := H.sha3_256 (nodeString pair)

lemma nodeString_inj {pair pair' : Uint256 × Uint256} (same : nodeString pair = nodeString pair') : pair = pair' := by
  obtain ⟨left, right⟩ := append_inj same (pair.1.size.trans pair'.1.size.symm)
  exact Prod.ext (Uint256.ext_data left) (Uint256.ext_data right)

lemma merkleLevel_eq_up (level : List Uint256) : merkleLevel H level = up (merkleNode H) level := by
  induction level using merkleLevel.induct with
  | case1 => rfl
  | case2 last => rfl
  | case3 left right rest ih => exact congrArg (merkleNode H (left, right) :: ·) ih

lemma merkleClimb_eq_climb (levels : Nat) (level : List Uint256) :
    merkleClimb H levels level = climb (merkleNode H) .null levels level := by
  induction levels generalizing level with
  | zero => rcases level with _ | ⟨first, _ | ⟨second, rest⟩⟩ <;> rfl
  | succ levels ih =>
    rcases level with _ | ⟨first, _ | ⟨second, rest⟩⟩
    · rfl
    · rfl
    · simp only [merkleClimb, climb]
      rw [merkleLevel_eq_up, ih]

def nodeStrings (transactions : List CTransaction) : List Bytes :=
  (joined (merkleNode H) transactions.length (transactions.map (getHash H))).map nodeString

lemma nodup_of_checkDuplicateTxids {seenTxIds txids : List Uint256}
    (passed : checkDuplicateTxids seenTxIds txids = .ok ()) :
    txids.Nodup ∧ ∀ txid ∈ txids, txid ∉ seenTxIds := by
  induction txids generalizing seenTxIds with
  | nil => exact ⟨nodup_nil, by simp⟩
  | cons txid rest ih =>
    unfold checkDuplicateTxids at passed
    split at passed
    · cases passed
    · rename_i fresh
      obtain ⟨distinct, unseen⟩ := ih passed
      refine ⟨nodup_cons.mpr ⟨fun member => unseen txid member mem_cons_self, distinct⟩, ?_⟩
      intro other member
      rcases mem_cons.mp member with rfl | later
      · exact fresh
      · exact fun seen => unseen other later (mem_cons_of_mem _ seen)

structure HashesApart (H : HashFunctions) (transactions transactions' : List CTransaction) : Prop where
  onNodes : Set.InjOn H.sha3_256 {string | string ∈ nodeStrings H transactions ∨ string ∈ nodeStrings H transactions'}
  onTransactions : Set.InjOn (getHash H) {tx | tx ∈ transactions ∨ tx ∈ transactions'}
  leafNotNode : ∀ tx ∈ transactions ++ transactions', ∀ string ∈
    nodeStrings H transactions ++ nodeStrings H transactions',
    tx.getHash H ≠ H.sha3_256 string

/-- Lists without duplicate ids that have the same merkle root are equal. -/
theorem merkle_root_binds (H : HashFunctions) (transactions transactions' : List CTransaction)
    (nonempty : transactions ≠ [])
    (nonempty' : transactions' ≠ []) (apart : HashesApart H transactions transactions')
    (passed : checkNoDuplicateTransactions H transactions = .ok ())
    (passed' : checkNoDuplicateTransactions H transactions' = .ok ())
    (same : buildMerkleRoot H transactions = buildMerkleRoot H transactions') : transactions = transactions' := by
  have joins : ∀ {txs : List CTransaction} {pair : Uint256 × Uint256},
      pair ∈ joined (merkleNode H) (txs.map (getHash H)).length (txs.map (getHash H)) →
      nodeString pair ∈ nodeStrings H txs := by
    intro txs pair member
    rw [length_map] at member
    exact mem_map_of_mem member
  have roots : climb (merkleNode H) .null (transactions.map (getHash H)).length (transactions.map (getHash H)) =
      climb (merkleNode H) .null (transactions'.map (getHash H)).length (transactions'.map (getHash H)) := by
    rwa [length_map, length_map, ← merkleClimb_eq_climb, ← merkleClimb_eq_climb]
  have hashes : transactions.map (getHash H) = transactions'.map (getHash H) := by
    refine eq_of_climb (by simpa using nonempty) (by simpa using nonempty')
      (nodup_of_checkDuplicateTxids passed).1 (nodup_of_checkDuplicateTxids passed').1 ?_ ?_ ?_ roots
    · intro pair member pair' member' equal
      exact nodeString_inj (apart.onNodes (member.imp joins joins) (member'.imp joins joins) equal)
    · intro leaf isLeaf pair member
      obtain ⟨tx, isTx, rfl⟩ := mem_map.mp isLeaf
      exact apart.leafNotNode tx (mem_append_left _ isTx) _ (mem_append_right _ (joins member))
    · intro leaf isLeaf pair member
      obtain ⟨tx, isTx, rfl⟩ := mem_map.mp isLeaf
      exact apart.leafNotNode tx (mem_append_right _ isTx) _ (mem_append_left _ (joins member))
  exact map_injOn apart.onTransactions (fun _ => .inl) (fun _ => .inr) hashes

def threePayments : List CTransaction := [1, 11, 21].map fun nVersion => ⟨nVersion, [], [], 0⟩

def successorHash : HashFunctions := ⟨fun data => Uint256.ofNat (LittleEndian.value data + 1), fun _ => .null⟩

theorem three_payments_are_bound :
    buildMerkleRoot successorHash threePayments = Uint256.ofNat 4 ∧ threePayments = threePayments := by
  have onNodes : ∀ string ∈ nodeStrings successorHash threePayments, ∀ other ∈ nodeStrings successorHash threePayments,
      successorHash.sha3_256 string = successorHash.sha3_256 other → string = other := by
    decide +kernel
  have onTransactions : ∀ tx ∈ threePayments, ∀ other ∈ threePayments,
      tx.getHash successorHash = other.getHash successorHash → tx = other := by
    decide
  refine ⟨by decide +kernel, merkle_root_binds successorHash threePayments threePayments (by decide) (by decide)
    ⟨fun string member other member' => ?_, fun tx member other member' => ?_, by decide +kernel⟩ (by decide)
    (by decide) rfl⟩
  · exact onNodes string (member.elim id id) other (member'.elim id id)
  · exact onTransactions tx (member.elim id id) other (member'.elim id id)

end Dilithion
