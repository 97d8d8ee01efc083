import SapioTee.Lib.Base64
import SapioTee.Model.App
import SapioTee.Model.Verifier

/-!
# The attestation and its verification

The two sides of one document: `src/nsm.rs` and the `/attestation` route of
`src/app.rs`, which ask the NSM for it, and the part of `verify` in
`scripts/verify-attestation.py` that takes it apart. `attested` is what
`Verifier.verify` is given between its two validations and the identity.

CBOR, X.509 and ECDSA are the packages' (`AttestationCrates`); what the script
does with the values they return is here. A `Value` is what `cbor2` decodes
to. Python compares numbers by value across its types, so a map with `True`
or `1.0` for a key has the key `1`. The certificate path is checked at the
system's clock, which is not the time the document's is compared with.
-/

namespace SapioTee

open Lib

/-! ## The NSM -/

/-- `Response`, as far as it is told apart. -/
inductive Nsm.Response where
  | describePcr (lock : Bool) (data : Bytes)
  | attestation (document : Bytes)
  | other

/-- One round of the loop of `Nsm::open`. -/
def Nsm.checkRegister (processRequest : Nat → Nsm.Response) (index : Nat) :
    Except Error Unit :=
  ensure
    (match processRequest index with
      | .describePcr lock data =>
          lock && data.length == 48 && data.any (· != 0)
      | _ => false)
    ("PCR" ++ toString index ++
      " must be locked, nonzero SHA-384; debug enclaves are forbidden")

/-- `Nsm::open` on what `nsm_init` and the driver return. -/
def Nsm.open (fd : Int) (processRequest : Nat → Nsm.Response) :
    Except Error Unit := do
  ensure (0 ≤ fd) "Nitro NSM unavailable; production requires /dev/nsm"
  [0, 1, 2].forM (Nsm.checkRegister processRequest)

/-- `Nsm::attest`; the request carries a nonce and user data, no key. The
driver is a computation in `m`, which may be more than its answer. -/
def Nsm.attestIn {m : Type → Type} [Monad m] (sha256 : Bytes → Hash)
    (processRequest : Bytes → Bytes → m Nsm.Response) (nonce : Bytes)
    (identityJson : String) : m (Except Error Bytes) :=
  if 16 ≤ nonce.length ∧ nonce.length ≤ 64 then do
    match ← processRequest nonce (sha256 (utf8 identityJson)).toList with
    | .attestation document => pure (.ok document)
    | _ => pure (.error (.message "NSM attestation failed"))
  else pure (.error (.message "nonce must contain 16..64 bytes"))

namespace App

variable {T : Types} {E : Enclave T}

structure AttestationResponse where
  identityJson : String
  document : String

/-- What serde writes of it. -/
def AttestationResponse.json (response : AttestationResponse) : Json :=
  .obj [("identity_json", .str response.identityJson),
    ("document", .str response.document)]

/-- `attestation` up to the NSM: the nonce and the identity it attests. -/
def World.attestationRequest (w : World E) (nonce : String) :
    Except ApiError (Bytes × String) :=
  match unhexChars nonce.toList with
  | none => .error (400, "nonce must be hexadecimal")
  | some nonce =>
      if 16 ≤ nonce.length ∧ nonce.length ≤ 64 then
        match w.identity with
        | none => .error (503, "not initialized")
        | some identity =>
            if E.nsm then .ok (nonce, identity)
            else .error (503, "local-dev cannot attest")
      else .error (400, "nonce must contain 16..64 bytes")

def World.attestationIn {m : Type → Type} [Monad m] (w : World E)
    (processRequest : Bytes → Bytes → m Nsm.Response) (nonce : String) :
    m (Except ApiError AttestationResponse) :=
  match w.attestationRequest nonce with
  | .error error => pure (.error error)
  | .ok (nonce, identity) => do
      match ← Nsm.attestIn E.keys.sha256 processRequest nonce identity with
      | .error _ => pure (.error (503, "NSM attestation failed"))
      | .ok document =>
          pure (.ok ⟨identity, String.ofList (base64Chars document)⟩)

/-- The handler over a driver that is only its answers. -/
def World.attestation (w : World E)
    (processRequest : Bytes → Bytes → Nsm.Response) (nonce : String) :
    Except ApiError AttestationResponse :=
  w.attestationIn (m := Id) processRequest nonce

end App

/-! ## The document -/

/-- A value of `cbor2`. -/
inductive Value where
  | int (n : Int)
  | bool (b : Bool)
  /-- A finite float, decimal or fraction. -/
  | number (x : Rat)
  | bytes (b : Bytes)
  | str (s : String)
  | list (items : List Value)
  | tuple (items : List Value)
  | dict (pairs : List (Value × Value))
  | frozendict (pairs : List (Value × Value))
  | tag (n : Nat) (value : Value)
  /-- Equal to no number, text or byte string. -/
  | other

/-- The pairs of a map. -/
abbrev Pairs := List (Value × Value)

namespace Value

/-- The number a value is compared as. -/
def number? : Value → Option Rat
  | .int n => some n
  | .bool b => some (if b then 1 else 0)
  | .number x => some x
  | _ => none

def str? : Value → Option String
  | .str s => some s
  | _ => none

def bytes? : Value → Option Bytes
  | .bytes b => some b
  | _ => none

/-- `isinstance(value, collections.abc.Mapping)`. -/
def mapping? : Value → Option Pairs
  | .dict pairs | .frozendict pairs => some pairs
  | _ => none

/-- `isinstance(value, (list, tuple))`. -/
def items? : Value → Option (List Value)
  | .list items | .tuple items => some items
  | _ => none

/-- `value == n`. -/
def isInt (value : Value) (n : Int) : Bool := value.number? == some (n : Rat)

/-- `value == {1: -35}`. -/
def isES384 (value : Value) : Bool :=
  match value.mapping? with
  | some [(key, algorithm)] => key.isInt 1 && algorithm.isInt (-35)
  | _ => false

end Value

/-- `pairs.get(name)` for a text. -/
def Pairs.get (pairs : Pairs) (name : String) : Option Value :=
  (pairs.find? fun pair => pair.1.str? == some name).map Prod.snd

/-- `pairs.get(n)` for a number. -/
def Pairs.at (pairs : Pairs) (n : Int) : Option Value :=
  (pairs.find? fun pair => pair.1.isInt n).map Prod.snd

/-- `pairs[name]`. -/
def Pairs.item (pairs : Pairs) (name : String) : Except Error Value :=
  match pairs.get name with
  | some value => .ok value
  | none => .error (.upstream "KeyError")

/-- The packages the verifier imports for the document. -/
structure AttestationCrates where
  Certificate : Type
  PublicKey : Type
  /-- `cbor2.CBORDecoder(stream).decode()`, with what is left of the stream. -/
  decode : Bytes → Except String (Value × Bytes)
  /-- `cbor2.dumps`. -/
  dumps : Value → Bytes
  /-- `crypto.load_certificate(crypto.FILETYPE_PEM, ..)`. -/
  loadPem : Bytes → Except String Certificate
  /-- `crypto.load_certificate(crypto.FILETYPE_ASN1, ..)`. -/
  loadDer : Value → Except String Certificate
  /-- `crypto.X509StoreContext(store, leaf, chain).verify_certificate()`, for
  a store of one root, at a time of the system's clock. -/
  verifyCertificate : Nat → Certificate → Certificate → List Certificate →
    Except String Unit
  /-- `x509.load_der_x509_certificate(..).public_key()`, if it is on P-384. -/
  publicKey : Bytes → Except String (Option PublicKey)
  /-- `public_key.verify` with ECDSA and SHA-384, on the two integers of a
  signature. -/
  verifySignature : PublicKey → Nat → Nat → Bytes → Except String Unit

namespace Verifier

variable (A : AttestationCrates)

/-- `cbor_value`. -/
def cborValue (raw : Bytes) : Except Error Value := do
  let (value, rest) ← outside (A.decode raw)
  require rest.isEmpty "trailing CBOR data"
  pure value

/-- The first check of `cbor_value`. -/
def cborInput (raw : Value) : Except Error Bytes :=
  present raw.bytes? "CBOR input must be bytes"

/-- An item of a JSON array that Python cannot hash. -/
def unhashable : Json → Bool
  | .arr _ | .obj _ => true
  | _ => false

def responseFields : List String := ["document", "identity_json"]

/-- `set(response) == {..}`, and that `response` has members. -/
def responseMembers (response : Json) : Except Error Members :=
  match response with
  | .obj members => do
      require (Json.hasExactly responseFields members)
        "unexpected response fields"
      pure members
  | .arr items =>
      if items.any unhashable then .error (.upstream "TypeError")
      else if (items.all fun i => responseFields.any (isStr i)) &&
          responseFields.all fun name => items.any (isStr · name) then
        .error (.upstream "TypeError")
      else .error (.message "unexpected response fields")
  | .str _ => .error (.message "unexpected response fields")
  | _ => .error (.upstream "TypeError")

/-- `base64.b64decode(value, validate=True)`. -/
def b64decode (value : Json) : Except Error Bytes :=
  match value with
  | .str s =>
      match unbase64Chars s.toList with
      | some bytes => .ok bytes
      | none => .error (.upstream "binascii.Error")
  | _ => .error (.upstream "TypeError")

/-- A COSE_Sign1 whose parts are of their kinds. -/
structure Envelope where
  header : Bytes
  payload : Bytes
  signature : Bytes
  document : Pairs

/-- The tag of a COSE_Sign1 is optional. -/
def untagged (cose : Value) : Except Error Value :=
  match cose with
  | .tag n value => do
      require (n == 18) "expected COSE_Sign1 tag"
      pure value
  | _ => pure cose

/-- `isinstance(cose, (list, tuple)) and len(cose) == 4`. -/
def coseParts (cose : Value) :
    Except Error (Value × Value × Value × Value) :=
  match cose.items? with
  | some [header, unprotected, payload, signature] =>
      .ok (header, unprotected, payload, signature)
  | _ => .error (.message "invalid COSE_Sign1")

/-- `isinstance(signature, bytes) and len(signature) == 96`. -/
def signatureBytes (signature : Value) : Except Error Bytes := do
  let bytes ← present signature.bytes? "invalid ES384 signature"
  require (bytes.length == 96) "invalid ES384 signature"
  pure bytes

/-- `isinstance(document, dict)`. -/
def documentPairs (document : Value) : Except Error Pairs :=
  match document with
  | .dict pairs => .ok pairs
  | _ => .error (.message "invalid attestation payload")

/-- The lines of `verify` up to the certificates. -/
def envelope (encoded : Bytes) : Except Error Envelope := do
  require (encoded.length ≤ 16384) "attestation document too large"
  let cose ← cborValue A encoded
  let cose ← untagged cose
  let (header, unprotected, payload, signature) ← coseParts cose
  let unprotected ← present unprotected.mapping? "invalid unprotected header"
  let header ← cborInput header
  let algorithm ← cborValue A header
  require algorithm.isES384 "expected protected ES384 algorithm"
  require (unprotected.at 1).isNone "ambiguous COSE algorithm"
  let signature ← signatureBytes signature
  let payload ← cborInput payload
  let document ← cborValue A payload
  let document ← documentPairs document
  pure ⟨header, payload, signature, document⟩

/-- `cbor2.dumps(["Signature1", protected, b"", payload])`. -/
def signedMessage (header payload : Bytes) : Bytes :=
  A.dumps (.list [.str "Signature1", .bytes header, .bytes [],
    .bytes payload])

/-- `isinstance(bundle, list) and len(bundle) <= 10`. -/
def bundleItems (bundle : Value) : Except Error (List Value) :=
  match bundle with
  | .list items => do
      require (items.length ≤ 10) "invalid certificate chain"
      pure items
  | _ => .error (.message "invalid certificate chain")

/-- The lines about the certificates and the signature. -/
def authenticate (trustedRoot : Bytes) (clock : Nat) (e : Envelope) :
    Except Error Unit := do
  let root ← outside (A.loadPem trustedRoot)
  let certificate ← e.document.item "certificate"
  let certificate ← present certificate.bytes? "invalid leaf certificate"
  let leaf ← outside (A.loadDer (.bytes certificate))
  let bundle ← e.document.item "cabundle"
  let bundle ← bundleItems bundle
  let chain ← bundle.mapM fun item => outside (A.loadDer item)
  outside (A.verifyCertificate clock root leaf chain)
  let key ← outside (A.publicKey certificate)
  let key ← present key "expected P-384 certificate key"
  outside (A.verifySignature key (beNat (e.signature.take 48))
    (beNat (e.signature.drop 48)) (signedMessage A e.header e.payload))

/-- Measurement pins by register. -/
abbrev Pins := List (Int × Bytes)

/-- `set(pins) == {0, 1, 2}`. -/
def allPinned (pins : Pins) : Bool :=
  (pins.all fun pin => [0, 1, 2].contains pin.1) &&
    [0, 1, 2].all fun index => (pins.map Prod.fst).contains index

/-- That `document["pcrs"]` has `get`. -/
def registersOf (pcrs : Value) : Except Error Pairs :=
  match pcrs.mapping? with
  | some registers => .ok registers
  | none => .error (.upstream "AttributeError")

/-- One round of the loop over the pins. -/
def checkPin (document : Pairs) (pin : Int × Bytes) : Except Error Unit := do
  require (pin.2.length == 48 && pin.2.any (· != 0))
    "zero or invalid measurement pin"
  let pcrs ← document.item "pcrs"
  let registers ← registersOf pcrs
  require ((registers.at pin.1).bind Value.bytes? == some pin.2)
    ("PCR" ++ toString pin.1 ++ " mismatch")

/-- `type(timestamp) is int and now_ms - 300000 <= timestamp <= ..`. -/
def timely (nowMs : Int) : Value → Bool
  | .int timestamp =>
      nowMs - 300000 ≤ timestamp && timestamp ≤ nowMs + 5000
  | _ => false

/-- The lines about the measurements, the time and the nonce. -/
def checkDocument (nonce : Bytes) (pins : Pins) (nowMs : Int)
    (document : Pairs) : Except Error Unit := do
  let digest ← document.item "digest"
  require (digest.str? == some "SHA384") "expected SHA384 measurements"
  require (allPinned pins) "PCR0, PCR1 and PCR2 pins are all required"
  pins.forM (checkPin document)
  let timestamp ← document.item "timestamp"
  require (timely nowMs timestamp) "stale or future attestation timestamp"
  require (16 ≤ nonce.length && nonce.length ≤ 64)
    "nonce must contain 16..64 bytes"
  require ((document.get "nonce").bind Value.bytes? == some nonce)
    "challenge nonce mismatch"

/-- The response, its members and its envelope. -/
def presented (response : Json) : Except Error (Members × Envelope) := do
  let members ← responseMembers response
  let document ← item members "document"
  let encoded ← b64decode document
  let e ← envelope A encoded
  pure (members, e)

variable {T : Types} (V : VerifierCrates T)

/-- The lines about the text that the document binds. -/
def boundIdentity (members : Members) (document : Pairs) :
    Except Error String := do
  let identityJson ← item members "identity_json"
  let identityJson ← present identityJson.str? "identity_json must be a string"
  require ((document.get "user_data").bind Value.bytes?
      == some (V.sha256 (utf8 identityJson)).toList)
    "identity is not bound to attestation"
  pure identityJson

/-- What the verifier brings along, none of it from the host. -/
structure Challenge where
  settings : Json
  programProfile : Json
  nonce : Bytes
  pins : Pins
  trustedRoot : Bytes

/-- The text of the identity that the response attests. -/
def attested (c : Challenge) (response : Json) (clock : Nat) (nowMs : Int) :
    Except Error String := do
  let (members, e) ← presented A response
  authenticate A c.trustedRoot clock e
  checkDocument c.nonce c.pins nowMs e.document
  boundIdentity V members e.document

/-- `verify`. -/
def verifyResponse (c : Challenge) (response : Json) (clock : Nat)
    (nowMs : Int) : Except Error Json :=
  verify V (attested A V c response clock nowMs) c.settings c.programProfile

end Verifier

end SapioTee
