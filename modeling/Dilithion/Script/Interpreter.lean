import Dilithion.Primitives.Block

/-! The script interpreter: opcodes, the stack and its limits, nested conditionals and the two sides of an input. -/

namespace Dilithion

open Lib

def maxScriptSize : Nat := 20000

def maxStackSize : Nat := 1000

def maxScriptElementSize : Nat := 5300

def maxOpsPerScript : Nat := 201

def dilithium3SigSize : Nat := 3309

def dilithium3PkSize : Nat := 1952

inductive Opcode where
  | push (size : Nat)
  | pushData (width : Nat)
  | op0
  | op1Negate
  | opN (value : Nat)
  | nop
  | opIf
  | opNotIf
  | opElse
  | opEndIf
  | verify
  | opReturn
  | drop
  | dup
  | swap
  | size
  | equal
  | equalVerify
  | sha3_256
  | hash160
  | checkSig
  | checkMultiSig
  | checkLockTimeVerify
  | checkSequenceVerify
  | reserved
  | unknown
  deriving DecidableEq, Repr

def Opcode.ofByte (byte : UInt8) : Opcode :=
  if byte = 0x00 then .op0
  else if byte < 0x4c then .push byte.toNat
  else if byte = 0x4c then .pushData 1
  else if byte = 0x4d then .pushData 2
  else if byte = 0x4e then .pushData 4
  else if byte = 0x4f then .op1Negate
  else if 0x51 ≤ byte ∧ byte ≤ 0x60 then .opN (byte.toNat - 0x50)
  else match byte with
    | 0x61 => .nop
    | 0x63 => .opIf
    | 0x64 => .opNotIf
    | 0x67 => .opElse
    | 0x68 => .opEndIf
    | 0x69 => .verify
    | 0x6a => .opReturn
    | 0x75 => .drop
    | 0x76 => .dup
    | 0x7c => .swap
    | 0x82 => .size
    | 0x87 => .equal
    | 0x88 => .equalVerify
    | 0xa8 => .sha3_256
    | 0xa9 => .hash160
    | 0xac => .checkSig
    | 0xae => .checkMultiSig
    | 0xb0 => .reserved
    | 0xb1 => .checkLockTimeVerify
    | 0xb2 => .checkSequenceVerify
    | 0xb3 | 0xb4 | 0xb5 | 0xb6 | 0xb7 | 0xb8 | 0xb9 => .reserved
    | _ => .unknown

namespace CScriptNum

-- The magnitude has eight bytes, so eight rounds shift it out.
def magnitude : Nat → UInt64 → Bytes
  | 0, _ => []
  | rounds + 1, absvalue =>
    if absvalue = 0 then [] else absvalue.toUInt8 :: magnitude rounds (absvalue >>> 8)

def serialize (value : Int64) : Bytes :=
  if value = 0 then []
  else
    let negative := value < 0
    let result := magnitude 8 (if negative then 0 - value.toUInt64 else value.toUInt64)
    let last := result.getLast?.getD 0
    if last &&& 0x80 ≠ 0 then result ++ [if negative then 0x80 else 0x00]
    else if negative then result.dropLast ++ [last ||| 0x80]
    else result

def setVch (vch : Bytes) : Int64 :=
  match vch.getLast? with
  | none => 0
  | some last =>
    let result := vch.zipIdx.foldl
      (fun total byte => total ||| (Int64.ofNat byte.1.toNat <<< Int64.ofNat (8 * byte.2))) 0
    if last &&& 0x80 ≠ 0 then
      -(result &&& ~~~((0x80 : Int64) <<< Int64.ofNat (8 * (vch.length - 1))))
    else result

/-- The number a stack element holds, or the exception of the constructor. -/
def ofVch (vch : Bytes) (nMaxNumSize : Nat) : Except String Int64 :=
  if nMaxNumSize < vch.length then .error "script number overflow" else .ok (setVch vch)

end CScriptNum

def isPayToPublicKeyHash (script : Bytes) : Bool :=
  script.length == 25 && script.take 3 == [0x76, 0xa9, 0x14] && script.drop 23 == [0x88, 0xac]

def isUnspendable (script : Bytes) : Bool := script.head? == some 0x6a

/-- The form of signature scripts before the interpreter: two byte strings with two-byte lengths. -/
def isLegacyScriptSig (scriptSig : Bytes) : Bool :=
  scriptSig.length == 2 + dilithium3SigSize + 2 + dilithium3PkSize &&
    LittleEndian.value (scriptSig.take 2) == dilithium3SigSize

end Dilithion

/-! Script numbers. Sign and magnitude share the last byte, so a magnitude that fills it takes one more. -/

namespace Dilithion.CScriptNum

open Lib LittleEndian Int64 Nat

lemma magnitude_spec (rounds : Nat) (absvalue : UInt64) (bound : absvalue.toNat < 256 ^ rounds) :
    value (magnitude rounds absvalue) = absvalue.toNat ∧
      (absvalue ≠ 0 → 256 ^ (magnitude rounds absvalue).length ≤ 256 * absvalue.toNat) := by
  induction rounds generalizing absvalue with
  | zero =>
    simp only [pow_zero, lt_one_iff] at bound
    exact ⟨by simp [magnitude, value, bound], fun nonzero => absurd (UInt64.toNat_inj.mp bound) nonzero⟩
  | succ rounds ih =>
    unfold magnitude
    split
    case isTrue isZero => simp [isZero, value]
    case isFalse nonzero =>
      have positive : absvalue.toNat ≠ 0 := fun zero => nonzero (UInt64.toNat_inj.mp zero)
      have shifted : (absvalue >>> 8).toNat = absvalue.toNat / 256 := by
        rw [UInt64.toNat_shiftRight, shiftRight_eq_div_pow]
        rfl
      obtain ⟨rest, lower⟩ := ih (absvalue >>> 8) (by rw [shifted]; omega)
      rw [shifted] at rest lower
      refine ⟨by rw [value, rest]; exact mod_add_div _ 256, fun _ => ?_⟩
      rw [List.length_cons, pow_succ]
      by_cases done : absvalue >>> 8 = 0
      · have empty : magnitude rounds (absvalue >>> 8) = [] := by
          cases rounds <;> simp [magnitude, done]
        simp only [empty, List.length_nil]
        omega
      · have := lower done
        omega

/-- A byte above all bits of the total is added by the bitwise or. -/
lemma or_shifted (total index : Nat) (byte : UInt8) (bound : total < 256 ^ index) (small : index < 8) :
    ofNat total ||| (ofNat byte.toNat <<< ofNat (8 * index)) =
      ofNat (total + 256 ^ index * byte.toNat) := by
  have base : 256 ^ index = 2 ^ (8 * index) := (pow_mul 2 8 index).symm
  have amount : (BitVec.ofNat 64 (8 * index)).smod 64 = BitVec.ofNat 64 (8 * index) := by
    interval_cases index <;> decide
  have width : 8 * index % 2 ^ 64 = 8 * index := mod_eq_of_lt (by omega)
  have moved : BitVec.ofNat 64 byte.toNat <<< BitVec.ofNat 64 (8 * index) =
      BitVec.ofNat 64 (2 ^ (8 * index) * byte.toNat) := by
    rw [BitVec.shiftLeft_eq', BitVec.toNat_ofNat, width]
    apply BitVec.eq_of_toNat_eq
    simp [shiftLeft_eq, mul_comm]
  rw [base] at bound ⊢
  rw [← toBitVec_inj, Int64.toBitVec_or, Int64.toBitVec_shiftLeft]
  simp only [toBitVec_ofNat', amount, moved]
  rw [add_comm, two_pow_add_eq_or_of_lt bound, BitVec.ofNat_or, BitVec.or_comm]

lemma fold_value (vch : Bytes) (total index : Nat) (bound : total < 256 ^ index) (small : index + vch.length ≤ 8) :
    (vch.zipIdx index).foldl (fun total byte => total ||| (ofNat byte.1.toNat <<< ofNat (8 * byte.2)))
        (ofNat total) =
      ofNat (total + 256 ^ index * value vch) := by
  induction vch generalizing total index with
  | nil => simp [value]
  | cons byte vch ih =>
    simp only [List.length_cons] at small
    have digit : byte.toNat ≤ 255 := le_of_lt_succ byte.toNat_lt
    have grown : total + 256 ^ index * byte.toNat < 256 ^ (index + 1) := by
      have := Nat.mul_le_mul_left (256 ^ index) digit
      omega
    rw [List.zipIdx_cons, List.foldl_cons, or_shifted total index byte bound (by omega),
      ih _ (index + 1) grown (by omega)]
    rw [value, pow_succ, Nat.mul_add, add_assoc, mul_assoc]

/-- The highest bit. -/
def signBit (length : Nat) : Nat := 256 ^ length / 2

/-- What the bytes denote. -/
def decoded (vch : Bytes) : Int :=
  if value vch < signBit vch.length then value vch else signBit vch.length - value vch

lemma sign_byte (byte : UInt8) : (byte &&& 0x80 = 0 ↔ byte.toNat < 128) ∧
    (byte.toNat < 128 → (byte ||| 0x80).toNat = byte.toNat + 128) := by
  have bits : ∀ bits : BitVec 8, (bits &&& 0x80 = 0 ↔ bits.toNat < 128) ∧
      (bits.toNat < 128 → (bits ||| 0x80).toNat = bits.toNat + 128) := by decide +kernel
  rw [← UInt8.toBitVec_inj]
  exact bits byte.toBitVec

lemma signBit_succ (length : Nat) : signBit (length + 1) = 256 ^ length * 128 := by
  rw [signBit, pow_succ]
  omega

lemma value_lt_signBit_iff (front : Bytes) (last : UInt8) :
    value (front ++ [last]) < signBit (front.length + 1) ↔ last.toNat < 128 := by
  have below := value_lt front
  rw [value_concat, signBit_succ]
  constructor
  · intro less
    exact Nat.lt_of_mul_lt_mul_left (Nat.lt_of_le_of_lt (Nat.le_add_left _ _) less)
  · intro small
    have := Nat.mul_le_mul_left (256 ^ front.length) small
    rw [Nat.mul_succ] at this
    omega

lemma clear_top {bit rest : Nat} (bound : rest < 2 ^ bit) :
    ofNat (2 ^ bit + rest) &&& ~~~ ofNat (2 ^ bit) = ofNat rest := by
  have disjoint : rest.testBit bit = false := testBit_lt_two_pow bound
  have split := two_pow_add_eq_or_of_lt bound 1
  rw [Nat.mul_one] at split
  rw [← toBitVec_inj, Int64.toBitVec_and, Int64.toBitVec_not]
  simp only [toBitVec_ofNat', split, BitVec.ofNat_or]
  refine BitVec.eq_of_getLsbD_eq fun i inside => ?_
  simp only [BitVec.getLsbD_and, BitVec.getLsbD_or, BitVec.getLsbD_not, BitVec.getLsbD_ofNat, inside,
    decide_true, Bool.true_and,
    testBit_two_pow]
  by_cases here : bit = i
  · simp [← here, disjoint]
  · simp [here]

lemma setVch_eq (vch : Bytes) (small : vch.length ≤ 8) : setVch vch = ofInt (decoded vch) := by
  rcases vch.eq_nil_or_concat' with rfl | ⟨front, last, rfl⟩
  · rfl
  have folded := fold_value (front ++ [last]) 0 0 (by simp) (by omega)
  simp only [zero_add, pow_zero, Nat.one_mul] at folded
  have below := value_lt (front ++ [last])
  rw [List.length_append, List.length_singleton] at small below
  have top := or_shifted 0 front.length 0x80 (Nat.pow_pos (by decide)) (by omega)
  rw [zero_add] at top
  unfold setVch decoded
  rw [List.getLast?_concat, List.length_append, List.length_singleton]
  dsimp only
  by_cases positive : last.toNat < 128
  · rw [if_neg (not_not.mpr ((sign_byte last).1.mpr positive)), if_pos ((value_lt_signBit_iff front last).mpr positive)]
    exact folded
  · have set := (value_lt_signBit_iff front last).not.mpr positive
    obtain ⟨rest, isRest⟩ := Nat.exists_eq_add_of_le (not_lt.mp set)
    rw [if_pos ((sign_byte last).1.not.mpr positive), if_neg set]
    refine (congrArg₂ (fun total mask => -(total &&& ~~~ mask)) folded (Int64.zero_or.symm.trans top)).trans ?_
    have bit : 256 ^ front.length * 128 = 2 ^ (8 * front.length + 7) := by rw [pow_add, pow_mul]; rfl
    rw [signBit_succ] at isRest ⊢
    rw [isRest, pow_succ] at below
    rw [isRest, show UInt8.toNat 0x80 = 128 from rfl, bit, clear_top (by omega)]
    push_cast
    rw [sub_add_cancel_left, Int64.ofInt_neg]
    rfl

variable {v : Int64}

/-- The total of bytes of this length that denote the number. -/
def Denotes (length total : Nat) (v : Int64) : Prop :=
  v.toInt.natAbs < signBit length ∧ total = v.toInt.natAbs + if v < 0 then signBit length else 0

lemma setVch_eq_iff {vch : Bytes} (nonzero : v ≠ 0) (small : vch.length ≤ 8) :
    setVch vch = v ↔ Denotes vch.length (value vch) v := by
  have negative : v < 0 ↔ v.toInt < 0 := lt_iff_toInt_lt
  have nonzeroInt : v.toInt ≠ 0 := fun zero => nonzero (toInt_inj.mp zero)
  have below := value_lt vch
  have range : 256 ^ vch.length ≤ 256 ^ 8 := Nat.pow_le_pow_right (by decide) small
  have isNumber : (ofInt (decoded vch)).toInt = decoded vch := by
    refine toInt_ofInt_of_le ?_ ?_ <;> unfold decoded signBit <;> split <;> omega
  rw [setVch_eq vch small, ← toInt_inj, isNumber]
  unfold Denotes decoded signBit
  simp only [negative]
  cases vch with
  | nil =>
    simp only [value, List.length_nil]
    omega
  | cons byte rest =>
    rw [List.length_cons, pow_succ] at *
    split <;> split <;> omega

lemma absvalue_eq (v : Int64) : (if v < 0 then 0 - v.toUInt64 else v.toUInt64).toNat = v.toInt.natAbs := by
  have bits : v.toInt = if 2 * v.toUInt64.toNat < 2 ^ 64 then (v.toUInt64.toNat : Int)
      else v.toUInt64.toNat - (2 ^ 64 : Nat) :=
    BitVec.toInt_eq_toNat_cond v.toBitVec
  have bound := v.toUInt64.toNat_lt
  have opposite : (0 - v.toUInt64).toNat = (2 ^ 64 - v.toUInt64.toNat) % 2 ^ 64 := UInt64.toNat_sub ..
  have negative : v < 0 ↔ v.toInt < 0 := lt_iff_toInt_lt
  simp only [negative]
  split <;> split at bits <;> omega

/-- The length of the encoding is the least one that leaves the sign bit free. -/
lemma serialize_denotes (nonzero : v ≠ 0) : Denotes (serialize v).length (value (serialize v)) v ∧
    signBit ((serialize v).length - 1) ≤ v.toInt.natAbs := by
  have absvalue := absvalue_eq v
  unfold serialize
  rw [if_neg nonzero]
  dsimp only
  generalize (if v < 0 then 0 - v.toUInt64 else v.toUInt64) = word at *
  have nonzeroWord : word ≠ 0 := by
    rintro rfl
    exact nonzero (toInt_inj.mp (Int.natAbs_eq_zero.mp absvalue.symm))
  obtain ⟨whole, lower⟩ := magnitude_spec 8 word word.toNat_lt
  have lower := lower nonzeroWord
  rw [absvalue] at whole lower
  rcases (magnitude 8 word).eq_nil_or_concat' with empty | ⟨front, last, isConcat⟩
  · rw [empty] at whole lower
    simp only [value, List.length_nil] at whole lower
    omega
  rw [isConcat] at whole lower ⊢
  have sign := value_lt_signBit_iff front last
  have below := value_lt (front ++ [last])
  rw [List.length_append, List.length_singleton] at lower below
  rw [whole] at sign below
  rw [List.getLast?_concat, Option.getD_some]
  split
  case isTrue set =>
    -- the magnitude fills its last byte, and the sign takes one more
    have full := not_lt.mp (sign.not.mpr ((sign_byte last).1.not.mp set))
    have room := signBit_succ (front.length + 1)
    simp only [List.length_append, List.length_singleton, value_concat (front ++ [last]), whole]
    refine ⟨⟨by omega, ?_⟩, full⟩
    rw [room]
    split <;> rfl
  case isFalse clear =>
    have free := (sign_byte last).1.mp (not_not.mp clear)
    have least : signBit front.length ≤ v.toInt.natAbs := by
      rw [pow_succ] at lower
      unfold signBit
      omega
    split
    case isTrue negative =>
      rw [List.dropLast_concat, List.length_append, value_concat, (sign_byte last).2 free, Nat.mul_add,
        ← Nat.add_assoc, ← value_concat, whole]
      exact ⟨⟨sign.mpr free, by rw [if_pos negative]; exact congrArg _ (signBit_succ front.length).symm⟩, least⟩
    case isFalse nonneg =>
      rw [whole, List.length_append]
      exact ⟨⟨sign.mpr free, by rw [if_neg nonneg]; rfl⟩, least⟩

lemma serialize_length_le {size : Nat} (room : v.toInt.natAbs < signBit size) : (serialize v).length ≤ size := by
  by_cases nonzero : v = 0
  · subst nonzero
    exact Nat.zero_le _
  by_contra longer
  have wider : 256 ^ size ≤ 256 ^ ((serialize v).length - 1) := Nat.pow_le_pow_right (by decide) (by omega)
  have least := (serialize_denotes nonzero).2
  unfold signBit at room least
  omega

lemma serialize_spec (room : v.toInt.natAbs < signBit 8) : setVch (serialize v) = v ∧
    ∀ vch, setVch vch = v → vch = serialize v ∨ (serialize v).length < vch.length := by
  by_cases nonzero : v = 0
  · subst nonzero
    exact ⟨rfl, fun vch _ => (eq_or_ne vch []).imp_right List.length_pos_iff.mpr⟩
  have small := serialize_length_le room
  have denotes := (serialize_denotes nonzero).1
  refine ⟨(setVch_eq_iff nonzero small).mpr denotes, fun vch same => ?_⟩
  by_cases longer : (serialize v).length < vch.length
  · exact .inr longer
  -- bytes as short as the encoding have its length, and its value
  · obtain ⟨fits, isValue⟩ := (setVch_eq_iff nonzero (by omega)).mp same
    have size : vch.length = (serialize v).length := by
      have := serialize_length_le fits
      omega
    exact .inl (value_injective size (by rw [isValue, denotes.2, size]))

lemma ofVch_serialize (number : UInt32) : (serialize (ofNat number.toNat)).length ≤ 5 ∧
    ofVch (serialize (ofNat number.toNat)) 5 = .ok (ofNat number.toNat) := by
  have bound := number.toNat_lt
  have read : (ofNat number.toNat).toInt = number.toNat := toInt_ofNat_of_lt (by omega)
  have room (size : Nat) (large : 2 ^ 32 ≤ signBit size) : (ofNat number.toNat).toInt.natAbs < signBit size := by
    rw [read]
    omega
  have small := serialize_length_le (room 5 (by decide))
  exact ⟨small, by rw [ofVch, if_neg (by omega), (serialize_spec (room 8 (by decide))).1]⟩

end Dilithion.CScriptNum

namespace Dilithion

open Lib

structure ScriptVerifyFlags where
  checkLockTimeVerify : Bool
  checkSequenceVerify : Bool

structure SignatureChecker where
  checkSig : Bytes → Bytes → Bool
  checkLockTime : Int64 → Bool
  checkSequence : Int64 → Bool

variable (H : HashFunctions)

/-- The signed message: signing hash, input index, version and chain id, 44 bytes in all. -/
def signatureMessage (tx : CTransaction) (inputIdx : Nat) (chainId : UInt32) : Bytes :=
  (tx.getSigningHash H).data ++ serializeUint32 (UInt32.ofNat inputIdx) ++ serializeUint32 tx.nVersion.toUInt32 ++
    serializeUint32 chainId

variable (byte : UInt8)

def isConstant (data : Bytes) : Bool := data.all (fun other => other == byte)

namespace TransactionSignatureChecker

def checkSig (H : HashFunctions) (dilithium3Verify : Bytes → Bytes → Bytes → Bool) (tx : CTransaction)
    (inputIdx : Nat) (chainId : UInt32) (sig pubkey : Bytes) : Bool :=
  if sig.length ≠ dilithium3SigSize then false
  else if pubkey.length ≠ dilithium3PkSize then false
  else if isConstant 0x00 sig || isConstant 0xff sig then false
  else if isConstant 0x00 pubkey || isConstant 0xff pubkey then false
  else dilithium3Verify sig (H.sha3_256 (signatureMessage H tx inputIdx chainId)).data pubkey

def locktimeThreshold : UInt32 := 500000000

def checkLockTime (tx : CTransaction) (inputIdx : Nat) (nLockTime : Int64) : Bool :=
  if decide (tx.nLockTime < locktimeThreshold) ≠ decide (nLockTime < 500000000) then false
  else if Int64.ofNat tx.nLockTime.toNat < nLockTime then false
  else match tx.vin[inputIdx]? with
    | none => false
    | some txin => txin.nSequence != 0xFFFFFFFF

def checkSequence (tx : CTransaction) (inputIdx : Nat) (nSequence : Int64) : Bool :=
  if nSequence &&& 0x80000000 ≠ 0 then true
  else if tx.nVersion < 2 then false
  else match tx.vin[inputIdx]? with
    | none => false
    | some txin =>
      let required := nSequence.toUInt64.toUInt32
      if txin.nSequence &&& 0x80000000 ≠ 0 then false
      -- Bit 22 tells blocks from time; the lower sixteen bits are the duration.
      else if txin.nSequence &&& 0x00400000 ≠ required &&& 0x00400000 then false
      else !decide (txin.nSequence &&& 0xffff < required &&& 0xffff)

end TransactionSignatureChecker

def transactionSignatureChecker (dilithium3Verify : Bytes → Bytes → Bytes → Bool)
    (tx : CTransaction) (inputIdx : Nat) (chainId : UInt32) : SignatureChecker where
  checkSig := TransactionSignatureChecker.checkSig H dilithium3Verify tx inputIdx chainId
  checkLockTime := TransactionSignatureChecker.checkLockTime tx inputIdx
  checkSequence := TransactionSignatureChecker.checkSequence tx inputIdx

structure ScriptState where
  stack : List Bytes
  vfExec : List Bool
  nOpCount : Nat
  deriving DecidableEq

/-- A value is false when all its bytes are zero but for a sign bit in the last. -/
def castToBool : Bytes → Bool
  | [] => false
  | [last] => last != 0 && last != 0x80
  | byte :: rest => byte != 0 || castToBool rest

def ofBool (value : Bool) : Bytes := if value then [1] else []

namespace ScriptState

-- Only the innermost condition is looked at.
def fExec (state : ScriptState) : Bool := state.vfExec.head?.getD true

def pushed (state : ScriptState) (data : Bytes) : ScriptState := { state with stack := data :: state.stack }

end ScriptState

variable (state : ScriptState)

/-- A data push of `nSize` bytes. The size of the stack is not checked here. -/
def pushBytes (nSize : Nat) (rest : Bytes) : Except String (ScriptState × Bytes) :=
  if rest.length < nSize then .error "Push data extends past end of script"
  else if maxScriptElementSize < nSize then .error "Push data size exceeds maximum element size"
  else .ok (if state.fExec then state.pushed (rest.take nSize) else state, rest.drop nSize)

def hash160 (data : Bytes) : Bytes :=
  (H.sha3_256 (H.sha3_256 data).data).data.take 20

/-- A locktime check reads a five-byte number from the top of the stack and leaves it there. -/
def checkTopNumber (name what : String) (holds : Int64 → Bool) (state : ScriptState) : Except String ScriptState :=
  match state.stack with
  | [] => .error (name ++ " requires stack element")
  | top :: _ =>
    match CScriptNum.ofVch top 5 with
    | .error text => .error ("Script exception: " ++ text)
    | .ok number =>
      if number < 0 then .error (name ++ ": negative " ++ what)
      else if ¬ holds number then .error (name ++ ": " ++ what ++ " not satisfied")
      else .ok state

variable (flags : ScriptVerifyFlags) (checker : SignatureChecker)

def execTaken (byte : UInt8) (state : ScriptState) : Opcode → Except String ScriptState
  | .op0 => .ok (state.pushed [])
  | .op1Negate => .ok (state.pushed (CScriptNum.serialize (-1)))
  | .opN value => .ok (state.pushed (CScriptNum.serialize (Int64.ofNat value)))
  | .verify =>
    match state.stack with
    | [] => .error "OP_VERIFY requires stack element"
    | top :: below => if castToBool top then .ok { state with stack := below } else .error "OP_VERIFY failed"
  | .opReturn => .error "OP_RETURN encountered"
  | .dup =>
    match state.stack with
    | [] => .error "OP_DUP requires stack element"
    | top :: _ => .ok (state.pushed top)
  | .drop =>
    match state.stack with
    | [] => .error "OP_DROP requires stack element"
    | _ :: below => .ok { state with stack := below }
  | .swap =>
    match state.stack with
    | top :: second :: below => .ok { state with stack := second :: top :: below }
    | _ => .error "OP_SWAP requires two stack elements"
  | .size =>
    match state.stack with
    | [] => .error "OP_SIZE requires stack element"
    | top :: _ => .ok (state.pushed (CScriptNum.serialize (Int64.ofNat top.length)))
  | .equal =>
    match state.stack with
    | top :: second :: below => .ok { state with stack := ofBool (top == second) :: below }
    | _ => .error "OP_EQUAL requires two stack elements"
  | .equalVerify =>
    match state.stack with
    | top :: second :: below =>
      if top = second then .ok { state with stack := below } else .error "OP_EQUALVERIFY failed"
    | _ => .error "OP_EQUAL requires two stack elements"
  | .sha3_256 =>
    match state.stack with
    | [] => .error "OP_SHA3_256 requires stack element"
    | top :: below => .ok { state with stack := (H.sha3_256 top).data :: below }
  | .hash160 =>
    match state.stack with
    | [] => .error "OP_HASH160 requires stack element"
    | top :: below => .ok { state with stack := hash160 H top :: below }
  | .checkSig =>
    match state.stack with
    | pubkey :: sig :: below => .ok { state with stack := ofBool (checker.checkSig sig pubkey) :: below }
    | _ => .error "OP_CHECKSIG requires two stack elements"
  | .checkLockTimeVerify =>
    if flags.checkLockTimeVerify then
      checkTopNumber "OP_CHECKLOCKTIMEVERIFY" "locktime" checker.checkLockTime state
    else .ok state
  | .checkSequenceVerify =>
    if flags.checkSequenceVerify then
      checkTopNumber "OP_CHECKSEQUENCEVERIFY" "sequence" checker.checkSequence state
    else .ok state
  | .checkMultiSig => .error "OP_CHECKMULTISIG not yet implemented"
  | .unknown =>
    .error ("Unknown opcode: 0x" ++ String.ofList [Uint256.hexDigits.getD (byte.toNat / 16) '0',
      Uint256.hexDigits.getD (byte.toNat % 16) '0'])
  | _ => .ok state

def openBranch (negated : Bool) (state : ScriptState) : Except String ScriptState :=
  if state.fExec then
    match state.stack with
    | [] => .error "OP_IF/OP_NOTIF requires stack element"
    | top :: below => .ok { state with stack := below, vfExec := (castToBool top != negated) :: state.vfExec }
  else .ok { state with vfExec := false :: state.vfExec }

def execOpcode (byte : UInt8) (state : ScriptState) : Except String ScriptState :=
  match Opcode.ofByte byte with
  | .opIf => openBranch false state
  | .opNotIf => openBranch true state
  | .opElse =>
    match state.vfExec with
    | [] => .error "OP_ELSE without OP_IF"
    | [innermost] => .ok { state with vfExec := [!innermost] }
    | innermost :: parent :: outer =>
      .ok { state with vfExec := (if parent then !innermost else innermost) :: parent :: outer }
  | .opEndIf =>
    match state.vfExec with
    | [] => .error "OP_ENDIF without OP_IF"
    | _ :: outer => .ok { state with vfExec := outer }
  | opcode => if state.fExec then execTaken H flags checker byte state opcode else .ok state

/-- Bytes above `OP_16` count towards the limit. -/
def countOpcode : Except String ScriptState :=
  if 0x60 < byte then
    if maxOpsPerScript < state.nOpCount + 1 then .error "Opcode count exceeds maximum"
    else .ok { state with nOpCount := state.nOpCount + 1 }
  else .ok state

def checkStackSize : Except String ScriptState :=
  if maxStackSize < state.stack.length then .error "Stack size exceeds maximum" else .ok state

def scriptStep (state : ScriptState) (byte : UInt8) (rest : Bytes) : Except String (ScriptState × Bytes) :=
  match Opcode.ofByte byte with
  | .push nSize => pushBytes state nSize rest
  | .pushData width =>
    if rest.length < width then .error ("OP_PUSHDATA" ++ toString width ++ " past end")
    else pushBytes state (LittleEndian.value (rest.take width)) (rest.drop width)
  | _ => do
    let counted ← countOpcode byte state
    let done ← execOpcode H flags checker byte counted
    let checked ← checkStackSize done
    return (checked, rest)

-- A step consumes at least its own byte, so a script is done after as many steps as it has bytes.
def evalSteps (H : HashFunctions) (flags : ScriptVerifyFlags) (checker : SignatureChecker) :
    Nat → ScriptState → Bytes → Except String ScriptState
  | _, state, [] => .ok state
  | 0, state, _ :: _ => .ok state
  | steps + 1, state, byte :: rest => do
    let (next, behind) ← scriptStep H flags checker state byte rest
    evalSteps H flags checker steps next behind

def evalScript (stack : List Bytes) (script : Bytes) : Except String (List Bytes) := do
  if maxScriptSize < script.length then throw "Script size exceeds maximum"
  let final ← evalSteps H flags checker script.length ⟨stack, [], 0⟩ script
  if ¬ final.vfExec.isEmpty then throw "Unmatched OP_IF/OP_ENDIF"
  return final.stack

def verifyScript (scriptSig scriptPubKey : Bytes) : Except String Unit := do
  let pushed ← evalScript H flags checker [] scriptSig
  let final ← evalScript H flags checker pushed scriptPubKey
  match final with
  | [] => throw "Script evaluated to empty stack"
  | top :: _ => if ¬ castToBool top then throw "Script evaluated to false"

variable {state next : ScriptState} {rest behind : Bytes}

lemma pushBytes_rest {nSize : Nat}
    (done : pushBytes state nSize rest = .ok (next, behind)) : behind.length ≤ rest.length := by
  unfold pushBytes at done
  split at done
  · cases done
  · split at done
    · cases done
    · cases done
      simp

lemma scriptStep_rest {H : HashFunctions} {flags : ScriptVerifyFlags} {checker : SignatureChecker} {byte : UInt8}
    (done : scriptStep H flags checker state byte rest = .ok (next, behind)) : behind.length ≤ rest.length := by
  unfold scriptStep at done
  split at done
  · exact pushBytes_rest done
  · split at done
    · cases done
    · have shorter := pushBytes_rest done
      simp only [List.length_drop] at shorter
      omega
  · obtain ⟨counted, -, done⟩ := Decoder.bind_eq_ok_iff.mp done
    obtain ⟨executed, -, done⟩ := Decoder.bind_eq_ok_iff.mp done
    obtain ⟨checked, -, done⟩ := Decoder.bind_eq_ok_iff.mp done
    cases done
    exact Nat.le_refl _

lemma evalSteps_succ {state : ScriptState} {script : Bytes} {steps : Nat} (enough : script.length ≤ steps) :
    evalSteps H flags checker (steps + 1) state script = evalSteps H flags checker steps state script := by
  induction steps generalizing state script with
  | zero =>
    cases List.eq_nil_of_length_eq_zero (Nat.le_zero.mp enough)
    rfl
  | succ steps ih =>
    cases script with
    | nil => rfl
    | cons byte rest =>
      rw [evalSteps, evalSteps]
      cases step : scriptStep H flags checker state byte rest with
      | error text => rfl
      | ok result => exact ih (Nat.le_trans (scriptStep_rest step) (Nat.le_of_succ_le_succ enough))

/-- Further steps beyond the number of bytes change nothing: the whole script has been run. -/
lemma evalSteps_enough (state : ScriptState) (script : Bytes) {steps : Nat} (enough : script.length ≤ steps) :
    evalSteps H flags checker steps state script = evalSteps H flags checker script.length state script := by
  induction steps, enough using Nat.le_induction with
  | base => rfl
  | succ steps enough ih => rw [evalSteps_succ H flags checker enough, ih]

end Dilithion
