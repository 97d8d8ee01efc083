import SapioTee.Model.Crates

/-!
# Attested provisioning of the root (`src/keys.rs`)

`deriveRoot` awaits one thing, KMS's answer to `DeriveSharedSecret`, and is
cut there: `deriveRequest` is what it sends, `deriveFinish` what it does
with the answer. A string is its UTF-8 bytes wherever the source takes it
apart; every literal it is compared with is ASCII.

SHA-256, HKDF, the P-256 decoder and the BIP32 master key are outside code.
-/

namespace SapioTee

open Lib

inductive Network where
  | bitcoin
  | testnet
  | testnet4
  | signet
  | regtest
  deriving DecidableEq

/-- Immutable public inputs identifying a signer. -/
structure Settings where
  keyId : String
  blockhash : Hash
  network : Network
  deriving DecidableEq

/-- `KeyAgreementAlgorithmSpec`: the one KMS names, or any later one. -/
inductive KeyAgreementAlgorithm where
  | ecdh
  | unknown (name : String)
  deriving DecidableEq

structure SharedSecretRequest where
  region : Bytes
  keyId : String
  algorithm : KeyAgreementAlgorithm
  publicKey : Bytes

structure SharedSecretOutput where
  sharedSecret : Option Bytes
  keyId : Option String
  algorithm : Option KeyAgreementAlgorithm
  ciphertextForRecipient : Option Bytes

/-- The crates `keys.rs` calls. -/
structure KeyCrates (T : Types) where
  P256 : Type
  sha256 : Bytes → Hash
  fromSec1Bytes : Bytes → Except String P256
  toPublicKeyDer : P256 → Except String Bytes
  /-- HKDF-SHA256 from a salt, a secret and an info string. -/
  hkdfExpand : Bytes → Bytes → Bytes → Nat → Except String Bytes
  newMaster : Network → Bytes → Except String T.Xpriv

def numsDomain : Bytes := ascii "sapio-tee/p256-nums/v1"
def hkdfSalt : Bytes := ascii "sapio-tee/root-extract/v1"
def rootInfoDomain : Bytes := ascii "sapio-tee/bip32-root/v1"

/-- `.context(..)?` on an option. -/
def present {α : Type} (x : Option α) (text : String) : Except Error α :=
  match x with
  | some a => .ok a
  | none => .error (.message text)

/-- `.context(..)?` or `.map_err(..)?` on an outside result: its error is
replaced by a text of this repository. -/
def relabel {α : Type} (x : Except String α) (text : String) :
    Except Error α :=
  match x with
  | .ok a => .ok a
  | .error _ => .error (.message text)

theorem present_ok {α : Type} {x : Option α} {text : String} {a : α}
    (h : present x text = .ok a) : x = some a := by
  cases x with
  | some b => injection h with h; rw [h]
  | none => cases h

theorem describes_present {α : Type} (x : Option α) (text : String) :
    Describes (present x text) := by
  intro error h
  cases x with
  | some a => cases h
  | none =>
      injection h with h
      exact ⟨text, h.symm⟩

theorem relabel_ok {α : Type} {x : Except String α} {text : String} {a : α}
    (h : relabel x text = .ok a) : x = .ok a := by
  cases x with
  | ok b => injection h with h; rw [h]
  | error e => cases h

/-! ## Key ARNs -/

/-- Standard commercial partition KMS regions. -/
def kmsRegions : List String :=
  ["af-south-1", "ap-east-1", "ap-east-2", "ap-northeast-1",
    "ap-northeast-2", "ap-northeast-3", "ap-south-1", "ap-south-2",
    "ap-southeast-1", "ap-southeast-2", "ap-southeast-3", "ap-southeast-4",
    "ap-southeast-5", "ap-southeast-6", "ap-southeast-7", "ca-central-1",
    "ca-west-1", "eu-central-1", "eu-central-2", "eu-north-1", "eu-south-1",
    "eu-south-2", "eu-west-1", "eu-west-2", "eu-west-3", "il-central-1",
    "me-central-1", "me-south-1", "mx-central-1", "sa-east-1", "us-east-1",
    "us-east-2", "us-west-1", "us-west-2"]

/-- `u8::is_ascii_digit`. -/
def isDigit (b : UInt8) : Bool := decide (48 ≤ b ∧ b ≤ 57)

def lowercaseHex (b : UInt8) : Bool :=
  isDigit b || decide (97 ≤ b ∧ b ≤ 102)

/-- One byte of a UUID: a dash at four places, a hexadecimal digit at the
others. -/
def uuidByte (b : UInt8) (i : Nat) : Bool :=
  if i = 8 ∨ i = 13 ∨ i = 18 ∨ i = 23 then b == 45 else lowercaseHex b

def validKey (key : Bytes) : Bool :=
  match stripLead (ascii "mrk-") key with
  | some id => id.length == 32 && id.all lowercaseHex
  | none =>
      key.length == 36 && (key.zipIdx.all fun entry => uuidByte entry.1 entry.2)

/-- The source takes the fields off an iterator; here they are taken off the
list it runs over. -/
def keyRegion (keyId : Bytes) : Except Error Bytes := do
  let fields := keyId.splitOn 58
  ensure (fields.take 3 == [ascii "arn", ascii "aws", ascii "kms"])
    "key_id must be a full arn:aws:kms key ARN"
  let region ← present fields[3]? "KMS key ARN is missing its region"
  ensure ((kmsRegions.map ascii).contains region)
    "KMS key ARN uses an unsupported AWS region"
  let account ← present fields[4]? "KMS key ARN is missing its account"
  ensure (account.length == 12 && account.all isDigit)
    "KMS key ARN must contain a 12-digit AWS account"
  let resource ← present fields[5]? "KMS key ARN is missing its key"
  ensure fields[6]?.isNone "KMS key ARN has extra components"
  let key ← present (stripLead (ascii "key/") resource)
    "KMS key ARN must identify a key, not an alias"
  ensure (validKey key)
    "KMS key ARN must contain a canonical lowercase UUID or mrk- key ID"
  pure region

/-- `BlockHash::all_zeros`. -/
def allZeros : Hash := Vector.replicate 32 0

def Settings.validate (settings : Settings) : Except Error Unit := do
  let _ ← keyRegion (utf8 settings.keyId)
  ensure (settings.blockhash != allZeros) "blockhash must be nonzero"

/-! ## The root -/

section

variable {T : Types} (K : KeyCrates T)

/-- `u32::to_be_bytes`. -/
def u32Be (x : UInt32) : Bytes := (u32Le x).reverse

/-- What `nums_point` hashes at one counter. -/
def numsPreimage (blockhash : Hash) (counter : UInt32) : Bytes :=
  numsDomain ++ blockhash.toList ++ u32Be counter

/-- The loop of `nums_point` with this many counters left. -/
def numsFrom (blockhash : Hash) : Nat → UInt32 → Except Error K.P256
  | 0, _ => .error (.message "P-256 NUMS derivation exhausted its counter")
  | left + 1, counter =>
      let digest := K.sha256 (numsPreimage blockhash counter)
      match K.fromSec1Bytes (2 :: digest.toList) with
      | .ok point => .ok point
      | .error _ => numsFrom blockhash left (counter + 1)

def numsPoint (blockhash : Hash) : Except Error K.P256 :=
  numsFrom K blockhash (2 ^ 32) 0

def networkTag : Network → UInt8
  | .bitcoin => 0
  | .testnet => 1
  | .testnet4 => 2
  | .signet => 3
  | .regtest => 4

/-- The parts `expand_multi_info` is given, joined. -/
def rootInfo (settings : Settings) (arnLength : UInt32) : Bytes :=
  rootInfoDomain ++ u32Be arnLength ++ utf8 settings.keyId ++
    settings.blockhash.toList ++ [networkTag settings.network]

def rootFromSecret (settings : Settings) (secret : Bytes) :
    Except Error T.Xpriv := do
  ensure (secret.length == 32) "KMS shared secret must be exactly 32 bytes"
  let arnLength ← present (tryU32 (utf8 settings.keyId).length)
    "KMS key ARN is too long"
  let seed ← relabel
    (K.hkdfExpand hkdfSalt secret (rootInfo settings arnLength) 64)
    "HKDF could not produce the BIP32 seed"
  relabel (K.newMaster settings.network seed) "deriving the BIP32 master root"

/-- `derive_root` up to its await. -/
def deriveRequest (settings : Settings) :
    Except Error SharedSecretRequest := do
  settings.validate
  let region ← keyRegion (utf8 settings.keyId)
  let point ← numsPoint K settings.blockhash
  let publicKey ← relabel (K.toPublicKeyDer point)
    "encoding the P-256 NUMS point as SPKI DER"
  pure ⟨region, settings.keyId, .ecdh, publicKey⟩

/-- `derive_root` from KMS's answer on. -/
def deriveFinish (settings : Settings)
    (answer : Except String SharedSecretOutput) : Except Error T.Xpriv := do
  let output ← relabel answer
    "KMS DeriveSharedSecret failed through the enclave proxy"
  let secret ← present output.sharedSecret
    "KMS proxy returned no shared secret"
  ensure (output.keyId == some settings.keyId)
    "KMS response key ARN did not match the requested key"
  ensure (output.algorithm == some .ecdh) "KMS response did not use ECDH"
  ensure output.ciphertextForRecipient.isNone
    "KMS recipient ciphertext was not consumed by the enclave proxy"
  rootFromSecret K settings secret

end

end SapioTee
