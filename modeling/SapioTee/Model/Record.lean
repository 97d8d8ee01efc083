import SapioTee.Lib.JsonText
import SapioTee.Model.App

/-!
# The setup record and the identity as JSON

What serde's derived code makes of `Settings` on the way in and of
`Identity` on the way out: member names in the order of the fields, byte
strings as rust-bitcoin writes them. A block hash is 64 hexadecimal digits,
last byte first, read in either case and written in lowercase; a network is
its lowercase name; an extended public key is Base58Check of its 78 bytes.
serde also reads a struct off an array of its fields and a unit variant off
an object with one null member.
-/

namespace SapioTee

open Lib

theorem hexEncode_inj {as bs : Bytes} (h : hexEncode as = hexEncode bs) :
    as = bs :=
  hexChars_inj (String.ofList_injective h)

/-! ## Settings -/

/-- `BlockHash::from_str`. -/
def blockHashFromStr (s : String) : Option Hash :=
  match unhexChars s.toList with
  | none => none
  | some bytes =>
      if h : bytes.length = 32 then
        some ⟨bytes.reverse.toArray, by simp [h]⟩
      else none

def blockHashToString (hash : Hash) : String :=
  hexEncode hash.toList.reverse

def Network.name : Network → String
  | .bitcoin => "bitcoin"
  | .testnet => "testnet"
  | .testnet4 => "testnet4"
  | .signet => "signet"
  | .regtest => "regtest"

def Network.fromName (s : String) : Option Network :=
  [Network.bitcoin, .testnet, .testnet4, .signet, .regtest].find?
    fun network => network.name == s

def Network.deserialize : Json → Option Network
  | .str s => Network.fromName s
  | .obj [(name, .null)] => Network.fromName name
  | _ => none

def settingsOf (keyId blockhash network : Json) : Option Settings := do
  let keyId ← keyId.str?
  let blockhash ← blockhash.str?
  let blockhash ← blockHashFromStr blockhash
  let network ← Network.deserialize network
  pure ⟨keyId, blockhash, network⟩

/-- `#[serde(deny_unknown_fields)]`: every field once, nothing else. -/
def Settings.deserialize : Json → Option Settings
  | .obj members =>
      if (members.map Prod.fst).Nodup ∧ Json.hasExactly
          ["key_id", "blockhash", "network"] members = true then do
        let keyId ← Json.get members "key_id"
        let blockhash ← Json.get members "blockhash"
        let network ← Json.get members "network"
        settingsOf keyId blockhash network
      else none
  | .arr [keyId, blockhash, network] => settingsOf keyId blockhash network
  | _ => none

def Settings.json (settings : Settings) : Json :=
  .obj [("key_id", .str settings.keyId),
    ("blockhash", .str (blockHashToString settings.blockhash)),
    ("network", .str settings.network.name)]

/-- The setup handler takes the record: the extractor reads it as these
settings and they are valid. -/
def SetupAccepts (record : Json) (settings : Settings) : Prop :=
  Settings.deserialize record = some settings ∧ settings.validate = .ok ()

/-! ## The profile -/

/-- An evaluator's id is written as its bytes. -/
def InlineEvaluator.json (evaluator : InlineEvaluator) : Json :=
  .obj [("id", .str (hexEncode evaluator.id.toList)),
    ("wasm_version", .int evaluator.wasmVersion.toNat)]

def RegisteredEvaluator.json (evaluator : RegisteredEvaluator) : Json :=
  .obj [("name", .str evaluator.name),
    ("id", .str (hexEncode evaluator.id.toList)),
    ("wasm_version", .int evaluator.wasmVersion.toNat)]

def ArkSigningProfile.json (profile : ArkSigningProfile) : Json :=
  .obj [("protocol", .str profile.protocol),
    ("max_pending_sessions", .int profile.maxPendingSessions),
    ("max_sessions_per_user", .int profile.maxSessionsPerUser),
    ("session_lifetime_secs", .int profile.sessionLifetimeSecs),
    ("native_ownership_policy", .bool profile.nativeOwnershipPolicy)]

def ProgramProfile.json (profile : ProgramProfile) : Json :=
  .obj [("protocol", .str profile.protocol),
    ("inline_evaluators",
      .arr (profile.inlineEvaluators.map InlineEvaluator.json)),
    ("registered_evaluators",
      .arr (profile.registeredEvaluators.map RegisteredEvaluator.json)),
    ("max_connections", .int profile.maxConnections),
    ("request_timeout_secs", .int profile.requestTimeoutSecs),
    ("ark_signing", profile.arkSigning.json)]

/-! ## Extended public keys -/

inductive NetworkKind where
  | main
  | test
  deriving DecidableEq

def Network.kind : Network → NetworkKind
  | .bitcoin => .main
  | _ => .test

/-- `bitcoin::bip32::Xpub`. -/
structure XpubFields where
  network : NetworkKind
  depth : UInt8
  parentFingerprint : Vector UInt8 4
  childNumber : Vector UInt8 4
  chainCode : Vector UInt8 32
  publicKey : Vector UInt8 33

def NetworkKind.xpubVersion : NetworkKind → Bytes
  | .main => [0x04, 0x88, 0xb2, 0x1e]
  | .test => [0x04, 0x35, 0x87, 0xcf]

/-- `Xpub::encode`, the 78 bytes of BIP32. -/
def XpubFields.encode (xpub : XpubFields) : Bytes :=
  xpub.network.xpubVersion ++ [xpub.depth] ++ xpub.parentFingerprint.toList ++
    xpub.childNumber.toList ++ xpub.chainCode.toList ++ xpub.publicKey.toList

/-- The first four bytes of the double hash. -/
def checksum (sha256 : Bytes → Hash) (payload : Bytes) : Bytes :=
  (sha256 (sha256 payload).toList).toList.take 4

def base58Check (sha256 : Bytes → Hash) (payload : Bytes) : String :=
  String.ofList (base58Chars (payload ++ checksum sha256 payload))

/-! ## The identity -/

/-- What is read of an outside key, and the outside code both scripts run. -/
structure VerifierCrates (T : Types) where
  xpriv : T.Xpriv → NetworkKind
  xpub : T.Xpub → XpubFields
  sha256 : Bytes → Hash
  /-- `float` on the text of a JSON number. -/
  float : List Char → Json
  /-- How serde prints a fraction. -/
  ryu : Rat → List Char
  /-- `ec.EllipticCurvePublicKey.from_encoded_point` on secp256k1. -/
  fromEncodedPoint : Bytes → Except String Unit

/-- `json.loads`, before any hook. -/
def VerifierCrates.loads {T : Types} (V : VerifierCrates T) (text : String) :
    Option Json :=
  JsonText.loads V.float text.toList

namespace App

variable {T : Types} (V : VerifierCrates T)

def Identity.json (identity : Identity T) : Json :=
  .obj [("protocol", .str identity.protocol), ("mode", .str identity.mode),
    ("xpub", .str (base58Check V.sha256 (V.xpub identity.xpub).encode)),
    ("settings", (identity.settings.map Settings.json).getD .null),
    ("signing", identity.signing.json)]

end App

end SapioTee
