import SapioTee.Model.App
import SapioTee.Model.ArkSigner

/-!
# A symbolic reading of the outside crates

Runs of the signer need some code behind `Crates`. Here it is symbolic: a
derived key is the path it was derived along, a nonce is the entropy that
made it, a share is the term of what it signs. Nothing is random, nothing is
encoded, and each function returns what the real one is a name for, so a run
over it reads like the protocol's own description.

Only runs on given inputs are stated over it. No theorem about the signer
assumes that the crates are these.
-/

namespace SapioTee

open Lib

/-- Keys are derivation paths from a seed; shares are terms. -/
abbrev symbolicTypes : Types where
  Xpriv := List Hash
  Xpub := List Hash
  DerivationPath := Hash
  PublicKey := List Hash
  XOnlyPublicKey := List Hash
  Keypair := List Hash × Nat
  Tweak := Hash
  VtxoPolicy := Nat
  Vtxo := Nat
  VtxoId := Nat
  LightningReceive := Nat
  SpendBody := Nat
  PublicNonce := String
  MemberNonce := Bytes
  SecretNonce := Nat
  Entropy := Nat
  PartialSignature := Bytes
  Session := Bytes
  Guest := Unit

/-- The hash whose first byte is `b`; the others are zero. -/
def hashOf (b : UInt8) : Hash := ⟨⟨b :: List.replicate 31 0⟩, rfl⟩

/-- Every decoder accepts, every program is inline, the guest approves. -/
def symbolicCrates : Crates symbolicTypes where
  maxProgramRootDepth := 252
  depth := List.length
  fromPriv := id
  derivePriv := fun root path => .ok (root ++ [path])
  programDerivationPath := id
  toKeypair := fun key => (key, 0)
  addXonlyTweak := fun pair tweak => .ok (pair.1, pair.2 + tweak)
  programId := Program.evaluator
  instanceId := ProgramInstance.evaluator
  admitInstance := fun _ => .ok ()
  derivePublicKey := fun program root => .ok (root ++ [program.evaluator])
  evenPublicKey := id
  inlineWasmVersion := fun _ => some .v1
  intent := fun _ key =>
    .ok ⟨#v[key.userPubkey, key.root ++ [key.program.evaluator]], none,
      key.program.evaluator, none⟩
  signingInput := fun _ _ => .error "no transaction"
  ownershipMessage := fun _ key => .ok key.program.evaluator
  sighash := fun _ => .error "no transaction"
  validatePsbt := fun _ => .ok ()
  annex := fun _ => .ok none
  parseNonce := .ok
  serializeNonce := fun _ => []
  parsePartial := fun _ => .ok []
  serializePartial := id
  memberNonceFromBytes := fun _ _ bytes => .ok bytes
  serializeMemberNonce := id
  nonceNew := fun _ _ entropy => .ok entropy
  noncePublic := fun secret => leBytes 8 secret
  nonceSign := fun secret _ session => .ok (leBytes 8 secret ++ session)
  sessionNew := fun intent user program _ =>
    .ok (intent.message.toList ++ user ++ program)
  verifyServer := fun _ _ => .ok ()
  documentFromSlice := fun _ => .error "no document"
  scriptFromHex := fun _ => .ok []
  policyFromHex := fun _ => .ok 0
  parseAll := fun _ => []
  instantiate := fun _ _ => .error "no guest"
  allocate := fun store _ => (.error "no guest", store)
  evaluate := fun store _ => (.error "no guest", store)
  exhausted := fun _ => false

/-- Every point decodes; the seed is the secret, and the master key of a
network is the hash of its tag. -/
def symbolicKeys : KeyCrates symbolicTypes where
  P256 := Bytes
  sha256 := fun _ => hashOf 0
  fromSec1Bytes := .ok
  toPublicKeyDer := .ok
  hkdfExpand := fun _ secret _ _ => .ok secret
  newMaster := fun network _ => .ok [hashOf (networkTag network)]

/-- An oracle is its root and its registry. -/
def symbolicOracles : OracleCrates symbolicTypes where
  ProgramOracle := symbolicTypes.Xpriv × List WasmEvaluator
  payAtLeastWasm := []
  withVersion := fun version module => .ok ⟨hashOf 9, version, module⟩
  oracleNew := fun root registry => .ok (root, registry)
  oraclePublicRoot := Prod.fst
  wasmId := hashOf 1
  wasmV2Id := hashOf 2
  forWasmVersion := fun _ _ => hashOf 9

/-- A process with an NSM; the identity's text is its protocol and mode. -/
def symbolicEnclave : App.Enclave symbolicTypes where
  crates := symbolicCrates
  keys := symbolicKeys
  oracles := symbolicOracles
  toJson := fun identity => .ok (identity.protocol ++ " " ++ identity.mode)
  nsm := true

namespace Symbolic

/-- The root of the signer in symbolic runs. -/
def root : symbolicTypes.Xpriv := [hashOf 7]

def self : ArkSigner symbolicTypes := ⟨root, symbolicCrates.fromPriv root, []⟩

/-- A wallet asks for a status proof under the program with this id. -/
def prepareRequest (wallet program : UInt8) : PrepareRequest symbolicTypes where
  protocol := signingProtocol
  key := ⟨⟨hashOf program, [], []⟩, root, [hashOf wallet]⟩
  action := .ownership ⟨0, .status⟩
  userNonce := "nonce"

def finishRequest (session : UInt8) : FinishRequest :=
  ⟨signingProtocol, hashOf session, none, none⟩

/-- The three pieces of call `call`'s prepare, run without a gap. -/
def prepared (call : Nat) (wallet session : UInt8) :
    List (Act symbolicTypes) :=
  [.prepare (prepareRequest wallet 1), .readClock call,
    .reserve call call [hashOf session]]

/-- A prepare and the finish of its session. -/
def signingRun : List (Act symbolicTypes) :=
  prepared 0 1 5 ++ [.finish (finishRequest 5), .sign 1]

/-- One open session, and a second prepare of its wallet past its checks. -/
def secondPrepareRun : List (Act symbolicTypes) :=
  prepared 0 1 5 ++ [.prepare (prepareRequest 1 1)]

/-- A session whose lifetime passes, and a second prepare at its clock
reading after that. -/
def redrawnRun : List (Act symbolicTypes) :=
  prepared 0 1 5 ++ [.tick sessionLifetime, .prepare (prepareRequest 1 1),
    .readClock 1]

def settings : Settings where
  keyId := "arn:aws:kms:us-east-1:123456789012:key/" ++
    "12345678-1234-1234-1234-123456789abc"
  blockhash := hashOf 1
  network := .regtest

/-- KMS's answer to a request with these settings. -/
def kmsOutput : SharedSecretOutput where
  sharedSecret := some (List.replicate 32 66)
  keyId := some settings.keyId
  algorithm := some .ecdh
  ciphertextForRecipient := none

/-- Request 0, up to where it waits for the thread, and the thread up to its
report. -/
def reportedRun : List App.Act :=
  [.runtime true, .setup settings, .lock 0, .check 0, .kms 0 (.ok kmsOutput),
    .submit 0, .receive, .bind (.ok ()), .report]

/-- The setup goes through. -/
def publishedRun : List App.Act :=
  reportedRun ++ [.poll 0, .setArk 0, .setIdentity 0, .respond 0]

/-- The client goes away when the report is on its way. -/
def orphanRun : List App.Act := reportedRun ++ [.drop 0]

end Symbolic

end SapioTee
