import Dilithion.Primitives.Block

/-! Identities of miners, and where the coinbase names them. The mining identity key stands in the
`scriptSig` behind a marker: a registration carries the public key, a reference only the identity. -/

namespace Dilithion.DFMP

open Lib

structure Identity where
  data : Bytes
  size : data.length = 20
  deriving DecidableEq

namespace Identity

def null : Identity := ⟨List.replicate 20 0, rfl⟩

def isNull (identity : Identity) : Bool := identity.data.all (fun byte => byte == 0)

lemma toNats_injective : Function.Injective fun identity : Identity => identity.data.map UInt8.toNat := by
  intro first second same
  have bytes : first.data = second.data := List.map_injective_iff.mpr (fun _ _ => UInt8.toNat_inj.mp) same
  cases first
  congr

instance : LinearOrder Identity := LinearOrder.lift' (fun identity => identity.data.map UInt8.toNat) toNats_injective

def ofHash (hash : Uint256) : Identity := ⟨hash.data.take 20, by simp [hash.size]⟩

end Identity

variable (H : HashFunctions)

def deriveIdentityFromScript (scriptPubKey : Bytes) : Identity :=
  if scriptPubKey.isEmpty then .null else .ofHash (H.sha3_256 scriptPubKey)

def mikPubkeySize : Nat := 1952

def mikSignatureSize : Nat := 3309

def mikIdentitySize : Nat := 20

def mikReferenceMinSize : Nat := 1 + 1 + 20 + 3309

def deriveIdentityFromMIK (pubkey : Bytes) : Identity :=
  if pubkey.length ≠ mikPubkeySize then .null else .ofHash (H.sha3_256 pubkey)

structure AttestationEntry where
  seedId : UInt8
  timestamp : Nat
  signature : Bytes

/-- What a coinbase says about its miner. The flags for the two optional parts are kept with them. -/
structure CMIKScriptData where
  isRegistration : Bool
  identity : Identity
  pubkey : Bytes
  signature : Bytes
  registrationNonce : Nat
  dnaHash : Option Bytes
  attestations : Option (List AttestationEntry)

def parseDnaCommitment (rest : Bytes) : Option Bytes × Bytes :=
  if 1 + 32 ≤ rest.length ∧ rest.head? = some 0xDD then (some (rest.tail.take 32), rest.drop (1 + 32)) else (none, rest)

def readAttestations : Nat → Bytes → List AttestationEntry
  | 0, _ => []
  | count + 1, rest =>
    ⟨rest.headD 0, LittleEndian.value ((rest.drop 1).take 4), (rest.drop (1 + 4)).take mikSignatureSize⟩ ::
      readAttestations count (rest.drop (1 + 4 + mikSignatureSize))

def parseAttestations : Bytes → Option (List AttestationEntry)
  | marker :: attCount :: entries =>
    if marker = 0xDA ∧ attCount.toNat * (1 + 4 + mikSignatureSize) ≤ entries.length then
      some (readAttestations attCount.toNat entries)
    else none
  | _ => none

def parseRegistration (data : Bytes) : Option CMIKScriptData :=
  if data.length < mikPubkeySize + mikSignatureSize then none
  else
    let pubkey := data.take mikPubkeySize
    let identity := deriveIdentityFromMIK H pubkey
    if identity.isNull then none
    else
      let rest := data.drop (mikPubkeySize + mikSignatureSize)
      -- Registrations from before v3.0 have no nonce.
      let (registrationNonce, rest) :=
        if 8 ≤ rest.length then (LittleEndian.value (rest.take 8), rest.drop 8) else (0, rest)
      let (dnaHash, rest) := parseDnaCommitment rest
      some
        { isRegistration := true
          identity := identity
          pubkey := pubkey
          signature := (data.drop mikPubkeySize).take mikSignatureSize
          registrationNonce := registrationNonce
          dnaHash := dnaHash
          attestations := parseAttestations rest }

def parseReference (data : Bytes) : Option CMIKScriptData :=
  if enough : mikIdentitySize + mikSignatureSize ≤ data.length then
    some
      { isRegistration := false
        identity := ⟨data.take mikIdentitySize, by
          simp only [mikIdentitySize] at enough ⊢
          rw [List.length_take]
          omega⟩
        pubkey := []
        signature := (data.drop mikIdentitySize).take mikSignatureSize
        registrationNonce := 0
        dnaHash := (parseDnaCommitment (data.drop (mikIdentitySize + mikSignatureSize))).1
        attestations := none }
  else none

/-- The search for the marker. Behind a marker with an unknown type it goes on after the type. -/
def searchMIK (H : HashFunctions) : Bytes → Option CMIKScriptData
  | [] => none
  | byte :: rest =>
    if byte = 0xDF then
      match rest with
      | [] => none
      | mikType :: data =>
        if mikType = 0x01 then parseRegistration H data
        else if mikType = 0x02 then parseReference data
        else searchMIK H data
    else searchMIK H rest

def parseMIKFromScriptSig (scriptSig : Bytes) : Option CMIKScriptData :=
  if scriptSig.length < mikReferenceMinSize then none
  else
    -- The height in front is skipped: its length and up to four bytes.
    let heightLen := (scriptSig.headD 0).toNat
    let pos := if 1 ≤ heightLen ∧ heightLen ≤ 4 ∧ heightLen < scriptSig.length then 1 + heightLen else 0
    searchMIK H (scriptSig.drop pos)

end Dilithion.DFMP
