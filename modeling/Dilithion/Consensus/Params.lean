import Dilithion.Primitives.Block

/-! Amounts, the parameters of the networks and their checkpoints. -/

namespace Dilithion

abbrev CAmount := Int64

def coin : CAmount := 100000000

def maxMoney : CAmount := 21000000 * coin

def moneyRange (nValue : CAmount) : Bool := decide (0 ≤ nValue) && decide (nValue ≤ maxMoney)

inductive Network where
  | mainnet
  | testnet
  | dilv
  | regtest
  deriving DecidableEq, Repr

structure CCheckpoint where
  nHeight : Int
  hashBlock : Uint256
  deriving DecidableEq

structure ChainParams where
  network : Network := .mainnet
  chainID : UInt32 := 1
  initialReward : UInt64 := 50 * 100000000
  halvingInterval : UInt64 := 210000
  coinbaseMaturity : UInt32 := 100
  scriptV2ActivationHeight : Int := 0
  checkpoints : List CCheckpoint := []
  dfmpActivationHeight : Int := 0
  dfmpAssumeValidHeight : Int := 0
  timestampValidationHeight : Int := 999999999
  vdfLotteryActivationHeight : Int := 999999999
  /-- In seconds. -/
  vdfLotteryGracePeriod : Int := 60
  minBlockTimestampGap : Int := 0
  minBlockTimestampGapHeight : Int := 0

namespace ChainParams

variable (params : ChainParams)

def isTestnet : Bool := params.network == .testnet

def checkpointCheck (height : Int) (hash : Uint256) : Bool :=
  match params.checkpoints.find? (fun cp => decide (cp.nHeight = height)) with
  | some cp => decide (cp.hashBlock = hash)
  | none => true

def higher (best : Option CCheckpoint) (cp : CCheckpoint) : Option CCheckpoint :=
  match best with
  | none => some cp
  | some result => if cp.nHeight > result.nHeight then some cp else best

def getLastCheckpoint (height : Int) : Option CCheckpoint :=
  (params.checkpoints.filter fun cp => decide (cp.nHeight ≤ height)).foldl higher none

def highestCheckpoint : Option CCheckpoint :=
  (params.checkpoints.filter fun cp => decide (-1 < cp.nHeight)).foldl higher none

def getHighestCheckpointHeight : Int :=
  params.checkpoints.foldl (fun highest cp => if highest < cp.nHeight then cp.nHeight else highest) (-1)

end ChainParams

namespace Consensus

def miningTaxPercent : UInt64 := 2

def devFundShare : UInt64 := 50

def maxBlockSize : Nat := 4 * 1024 * 1024

def devFundPubkeyHash : Bytes :=
  [0x96, 0x85, 0x9a, 0x6f, 0x0b, 0xf2, 0x80, 0xb9, 0x5e, 0x36,
   0xbb, 0xe6, 0xaf, 0x01, 0x02, 0x5f, 0x9e, 0xd4, 0x5f, 0xce]

def devRewardPubkeyHash : Bytes :=
  [0xe2, 0x7c, 0x4c, 0x3f, 0xd6, 0x4a, 0x06, 0xc9, 0x6a, 0x11,
   0x85, 0xa3, 0xcc, 0xc2, 0x0c, 0xc6, 0x96, 0x93, 0xa1, 0xd5]

end Consensus

open List

/-- Heights and hashes; a hash is written the way `uint256S` reads it, the last byte in memory first. -/
def checkpointsAt (table : List (Nat × Nat)) : List CCheckpoint :=
  table.map fun (height, hash) => ⟨height, .ofNat hash⟩

def mainnetCheckpoints : List CCheckpoint := checkpointsAt
  [(1000, 0x000000006c282edbcc0f2eee5b0f8c8feb62c73d3787137037e589db99cab59f),
   (2000, 0x0000002c86158454f79a22a31dcabcaca7861f7e95e98275439dd66f4f9e8b4d),
   (5000, 0x00000152698282228ce368858d4070bc9da937ff2ed5c6276adf45dd9d299ee9),
   (10000, 0x000032dc7d684254b446b7568ec895b3279e1230d5a6b6a42e5552e1d45f8402),
   (11000, 0x000009628d3af9adef443ee681d19e4ff7c9d8f56a0b05acce8f55e43f88a6cf),
   (13000, 0x000001fe5b08776d2f96e3fca8a30ad4113e8e2d998f800e70b06e73454380c7),
   (16500, 0x000000b37d07c641b2b0e18ff7931300ac76ee083eae2522632b343ee221475f),
   (18500, 0x0000000c9cbfc8c909156c22b37437183ece80257851d5dc324312497d3f2a37),
   (23000, 0x00000a5bbef0e203c6b013976bbe4a3afc401975d5d4405298691d6620f47fa6),
   (24476, 0x000007289cc3fdbe88a572d84f974a49fb962eda7412312c28930153ae52d611),
   (30000, 0x0000000f1cadcbc897976ebe04f1171a5d591ebdb580bdd229d2e310f1a09f05),
   (34000, 0x00000009b2312644f10b286934ed982520e92aaa54b2736e46f365a77bd92d98),
   (40000, 0x000000271909e84a5a31fe60c27a9e40a2a51828efc89c6af059a2db2f6e2576),
   (44000, 0x0000002751fc99551f4fce1f2e92053b2432788f1dc12412fd81223204d11377),
   (54000, 0x0000000bb44c964b4e3c6fec8c15941738cd74b434bafbfe4aadce898140b993)]

def testnetCheckpoints : List CCheckpoint := checkpointsAt
  [(1000, 0x0000cb60f4051a278b03a4133a6cefda689a5788a215c6209b160a9be632b5ca),
   (2000, 0x000099b421f37840b53ec623a201c817a7ea9fcfa48e69e5c3461727fd92282f),
   (3000, 0x00002c1ca3bbbd9c7dd7b0903873b36724e1ee31c53f70ab7c81123228d9edb4),
   (5000, 0x00000e8e96d5571c22a6dbf934cb50b9c27c513d0bdf86d3539a014b59751643),
   (10000, 0x0001cb679cfe170ba4893cac1b6a3cb22c69dabe4913927a513761a0ad788e9a),
   (20000, 0x000adc0c364bed2b4f2247961d852d19d5432b8363e801df24045258a6730b3c),
   (40000, 0x0007eb5ab7d4a2086d5cc554ce7bbd7866c8ca5791e4ab1cedf631d04803f015),
   (60000, 0x0003d271d83c1fc66bb2af7cf8f16207034c8f80ec918f119a51ccb4203aadc7),
   (80000, 0x000a18c94a5bd98403807aff7260c5671079be0d822bdc0815916d8b6fed718e),
   (86000, 0x00001432d1653a47059b1aa78e71b9cbe69720555cdea55473412d97f74cb3dd)]

def dilvCheckpoints : List CCheckpoint := checkpointsAt
  [(500, 0x88c3760b617f4295176a76871acc60904e8dfc9ccd62d6d460475c520a039f1e),
   (1000, 0x9884fa2d1fcd8b2c7b5c3b49a6aa6c11c60a467ad93048cd871d0ebba42cc81e),
   (1500, 0x3fd46e642ef3b8a4a0ba29c80293dff82956bb10dedc26f6679045994d2b97de),
   (2000, 0x6b7f65e2e1c9171ec26dd68bf49b44c72eb1b6ad819b08864f79d9e48136d1a6),
   (2500, 0x05dff2b9b58ab6145e8345f103a12fd605a71092c7113527acc743d58d34f233),
   (2632, 0x7e250f5f24081906aeea465c546a371937812939dc00ead70a9621f897619caf),
   (2700, 0x475d9fcb367c512c65eb24d6feb962c3eaafb847a3c45265d108863cadbf4a0f),
   (2800, 0xdda53ab45040a889457f21bd828fc82b3c81dfc797be671e157d9e4d8c6438fa),
   (2900, 0xa0ce1e87001b1440837bfc3c2d2be8f481f68bf85cb9038b4a89360d9497be3e),
   (2935, 0x64abd9e3f640b683145e2a8fe10339573c658da53457611817c4b10a642698ee),
   (2949, 0xd8d2c97abb1d6e5aa15285ece31b44d6e9b779fcf97abfff65dfee62542938a0),
   (2951, 0x31cfe3012d8fe67482ed99474433c4f365d89c76003c90adf11e5fcd49438077),
   (2961, 0x0727d34f6604ec5f4c1efe92825f8b5c7f325f65d4a220005cd6f2ee1ee122b2),
   (8000, 0x9453c0150d81df7785c4b95c4ca50df75a1a561f092192a8ca55c15507397876),
   (8370, 0xef1e3a7de515523cde0b224865b26dc049c92033bc5a86b31e0e32cd1ca852be),
   (15000, 0x45f5877adcc1ec2dab453412d6a5cb3fd9383fc97a184aa4ec855db55212f5d6),
   (18700, 0x1fbcf55c40c735596b68772af0072b98342a098bd5c1ff0b3bb26423720e9295),
   (36500, 0x3a6c72ee0ac27508fe82b76ed561dc93bc52ee5a26825cbf3f693bbc7070fd63),
   (44233, 0x927a1e79a410e73c1778dd3eaebae1c07ce5271431abffa9b62a6f6b3177e373),
   (47500, 0x1094f7ca0197845a120a5440ce01c88e65b72f84f42a456f29e43c81b0cddbce),
   (49000, 0xde4316096f6993e4263c562130317810011ecc9f14f20b49022fefa6e8d28f17),
   (67000, 0xc929e38f1709c04c3174627edfe03c57eefdc36846d9d74ab32f899979205eff)]

def Network.checkpoints : Network → List CCheckpoint
  | .mainnet => mainnetCheckpoints
  | .testnet => testnetCheckpoints
  | .dilv => dilvCheckpoints
  | .regtest => []

namespace ChainParams

structure Configured (params : ChainParams) : Prop where
  reachable : ∀ cp ∈ params.checkpoints, 0 ≤ cp.nHeight
  agree : ∀ cp ∈ params.checkpoints, ∀ other ∈ params.checkpoints, cp.nHeight = other.nHeight →
    cp.hashBlock = other.hashBlock

lemma configured_of_rising {params : ChainParams} (start : ∀ cp ∈ params.checkpoints, 0 ≤ cp.nHeight)
    (rising : params.checkpoints.Pairwise fun cp next => cp.nHeight < next.nHeight) : Configured params := by
  refine ⟨start, fun cp member other memberOther same => ?_⟩
  by_contra differ
  have apart : cp ≠ other := fun equal => differ (congrArg CCheckpoint.hashBlock equal)
  let Apart : CCheckpoint → CCheckpoint → Prop := fun cp next => cp.nHeight ≠ next.nHeight
  have symmetric : Std.Symm Apart := ⟨fun _ _ => Ne.symm⟩
  have distinct : params.checkpoints.Pairwise Apart := rising.imp fun less => less.ne
  exact distinct.forall member memberOther apart same

lemma configured_network (params : ChainParams) (network : Network) (own : params.checkpoints = network.checkpoints) :
    Configured params := by
  refine configured_of_rising ?_ ?_ <;> rw [own] <;> cases network <;> simp [Network.checkpoints, mainnetCheckpoints,
    testnetCheckpoints, dilvCheckpoints, checkpointsAt]

variable {params : ChainParams} {cp : CCheckpoint}

lemma hash_of_checkpointCheck (configured : Configured params) (member : cp ∈ params.checkpoints) {hash : Uint256}
    (passes : params.checkpointCheck cp.nHeight hash = true) : cp.hashBlock = hash := by
  unfold checkpointCheck at passes
  split at passes
  next first found =>
    have height : first.nHeight = cp.nHeight := by simpa using find?_some found
    rw [configured.agree cp member first (mem_of_find?_eq_some found) height.symm]
    exact of_decide_eq_true passes
  next none =>
    have absent := find?_eq_none.mp none cp member
    simp at absent

variable {list : List CCheckpoint} {best : Option CCheckpoint}

lemma mem_of_foldl_higher {top : CCheckpoint}
    (result : list.foldl higher best = some top) : top ∈ list ∨ best = some top := by
  induction list generalizing best with
  | nil => exact .inr result
  | cons cp rest ih =>
    rcases ih result with inside | same
    · exact .inl (.tail _ inside)
    · unfold higher at same
      split at same
      · cases same
        exact .inl (.head _)
      · split at same
        · cases same
          exact .inl (.head _)
        · exact .inr same

lemma foldl_higher_isSome (present : best.isSome ∨ list ≠ []) : (list.foldl higher best).isSome := by
  induction list generalizing best with
  | nil => exact present.resolve_right (by simp)
  | cons cp rest ih =>
    refine ih (.inl ?_)
    unfold higher
    split
    · rfl
    · split <;> rfl

lemma highestCheckpoint_of_mem (configured : Configured params) (member : cp ∈ params.checkpoints) :
    ∃ top ∈ params.checkpoints, params.highestCheckpoint = some top := by
  have inside : cp ∈ params.checkpoints.filter fun cp => decide (-1 < cp.nHeight) := by
    have bound := configured.reachable cp member
    rw [mem_filter, decide_eq_true_eq]
    exact ⟨member, by omega⟩
  obtain ⟨top, found⟩ := Option.isSome_iff_exists.mp
    (foldl_higher_isSome (.inr (ne_nil_of_mem inside) : (none : Option CCheckpoint).isSome ∨ _))
  refine ⟨top, ?_, found⟩
  rcases mem_of_foldl_higher found with kept | nothing
  · exact (mem_filter.mp kept).1
  · cases nothing

end ChainParams

end Dilithion
