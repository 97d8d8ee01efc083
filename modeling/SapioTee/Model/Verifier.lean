import SapioTee.Model.Record

/-!
# The initializer and the verifier

The checks of the identity in `deploy/initialize.py` and
`scripts/verify-attestation.py`, which share their first lines and then go
their own ways: the initializer compares the settings and looks at the rest
in passing, the verifier takes profile and key apart. `verifyIdentity` is
what `verify` does with the expected settings, the expected profile and the
identity; the attestation document around it is left out.

A `ValueError` is its text; an exception raised below these functions is
`upstream`.
-/

namespace SapioTee

open Lib

/-- `require`. -/
def require (condition : Bool) (message : String) : Except Error Unit :=
  ensure condition message

theorem require_ok {condition : Bool} {message : String} {u : Unit}
    (h : require condition message = .ok u) : condition = true :=
  ensure_ok h

theorem require_true (message : String) : require true message = .ok () := rfl

theorem describes_require (condition : Bool) (message : String) :
    Describes (require condition message) :=
  describes_ensure condition message

/-- `isinstance(value, dict) and set(value) == names`. -/
def dict (value : Json) (names : List String) (message : String) :
    Except Error Members :=
  match value with
  | .obj members => do
      require (Json.hasExactly names members) message
      pure members
  | _ => .error (.message message)

theorem dict_obj {names : List String} {members : Members} {message : String}
    (h : Json.hasExactly names members = true) :
    dict (.obj members) names message = .ok members := by
  rw [dict, h]
  rfl

theorem dict_ok {value : Json} {names : List String} {message : String}
    {members : Members} (h : dict value names message = .ok members) :
    value = .obj members ∧ Json.hasExactly names members = true := by
  cases value with
  | obj taken =>
      obtain ⟨_, hfields, h⟩ := bind_ok h
      injection h with h
      rw [← h]
      exact ⟨rfl, require_ok hfields⟩
  | _ => cases h

/-- `value[name]`. -/
def item (members : Members) (name : String) : Except Error Json :=
  match Json.get members name with
  | some value => .ok value
  | none => .error (.upstream "KeyError")

theorem item_of_get {members : Members} {name : String} {value : Json}
    (h : Json.get members name = some value) :
    item members name = .ok value := by
  rw [item, h]

theorem item_ok {members : Members} {name : String} {value : Json}
    (h : item members name = .ok value) :
    Json.get members name = some value := by
  rw [item] at h
  split at h
  · next taken hget =>
      injection h with h
      rw [hget, h]
  · cases h

/-- `value == text` for a text. -/
def isStr (value : Json) (text : String) : Bool := value.str? == some text

/-- `isinstance(value, str) and value`. -/
def nonemptyStr (value : Json) : Bool :=
  match value.str? with
  | some s => s != ""
  | none => false

/-- `str.isspace` on one character. -/
def isSpace (c : Char) : Bool :=
  let n := c.toNat
  (9 ≤ n && n ≤ 13) || (28 ≤ n && n ≤ 32) || n == 0x85 || n == 0xa0 ||
    n == 0x1680 || (0x2000 ≤ n && n ≤ 0x200a) || n == 0x2028 || n == 0x2029 ||
    n == 0x202f || n == 0x205f || n == 0x3000

/-- `isinstance(value, str) and value.strip()`: some character is left. -/
def nonblankStr (value : Json) : Bool :=
  match value.str? with
  | some s => s.toList.any fun c => !isSpace c
  | none => false

/-- 64 lowercase hexadecimal digits. -/
def lowercaseHex64 (s : String) : Bool :=
  s.length == 64 && s.toList.all fun c => hexAlphabet.contains c

def identityFields : List String :=
  ["protocol", "mode", "xpub", "settings", "signing"]

def settingsFields : List String := ["key_id", "blockhash", "network"]

variable {T : Types} (V : VerifierCrates T)

namespace Initialize

/-- `int(text, 16)` on digits. -/
def intBase16 (s : String) : Nat :=
  s.toList.foldl (fun n c => 16 * n + (hexValue c).getD 0) 0

def jsonValue (data : String) : Except Error Json :=
  match V.loads data with
  | none => .error (.upstream "JSONDecodeError")
  | some value => do
      match value.constants with
      | [] => pure ()
      | name :: _ => .error (.message ("invalid JSON constant: " ++ name))
      require value.unique "duplicate JSON field"
      pure value

def validateSettings (settings : Json) : Except Error Unit := do
  let members ← dict settings settingsFields
    "settings must contain exactly key_id, blockhash and network"
  require (members.all fun m => nonemptyStr m.2)
    "all settings must be nonempty strings"
  let blockhash ← item members "blockhash"
  let blockhash := blockhash.str?.getD ""
  require (lowercaseHex64 blockhash && intBase16 blockhash != 0)
    "blockhash must be canonical nonzero lowercase 64-hex"

def validateIdentity (body : String) (settings : Json) :
    Except Error Json := do
  let identity ← jsonValue V body
  let members ← dict identity identityFields
    "unexpected public identity fields"
  let protocol ← item members "protocol"
  require (isStr protocol "sapio-tee/program-oracle/1")
    "unsupported identity protocol"
  let mode ← item members "mode"
  require (isStr mode "nitro")
    "identity is not a Nitro signer (local-dev is forbidden)"
  let published ← item members "settings"
  require (Json.eq published settings)
    "initialized identity settings mismatch; refusing to reconfigure"
  let xpub ← item members "xpub"
  require (nonblankStr xpub) "missing xpub"
  let signing ← item members "signing"
  require (signing matches .obj _) "missing signing profile"
  pure identity

end Initialize

namespace Verifier

def jsonValue (text : String) : Except Error Json :=
  match V.loads text with
  | none => .error (.upstream "JSONDecodeError")
  | some value => do
      require value.unique "duplicate JSON field"
      pure value

/-! ## The profile -/

def zeros (n : Nat) : List Char := List.replicate n '0'

/-- The ids of the inline interpreters and their ABI versions. -/
def reserved : List (String × Int) :=
  [(String.ofList (zeros 64), 1), (String.ofList (zeros 63 ++ ['2']), 2)]

def validateArkSigning (value : Json) : Except Error Unit := do
  let ark ← dict value
    ["protocol", "max_pending_sessions", "max_sessions_per_user",
      "session_lifetime_secs", "native_ownership_policy"]
    "invalid Ark signing profile fields"
  let protocol ← item ark "protocol"
  require (isStr protocol "sapio-ark/nested-signing/1")
    "unsupported Ark signing protocol"
  let policy ← item ark "native_ownership_policy"
  require (policy matches .bool true)
    "native ownership policy enforcement is not advertised"
  for (field, expected) in [("max_pending_sessions", (256 : Int)),
      ("max_sessions_per_user", 8), ("session_lifetime_secs", 120)] do
    let value ← item ark field
    require (value.int? == some expected)
      ("unsupported Ark signing " ++ field)

def inlineFields : List String := ["id", "wasm_version"]

def registeredFields : List String := ["id", "wasm_version", "name"]

/-- What every entry of a registry is asked: its id, its version and the ids
seen with it. -/
def validateEvaluator (fields : List String) (seen : List String)
    (entry : Json) : Except Error (Members × String × Int) := do
  let members ← dict entry fields "invalid evaluator fields"
  let id ← item members "id"
  let id ← present id.str? "invalid evaluator ID"
  require (lowercaseHex64 id) "invalid evaluator ID"
  require (!seen.contains id) "duplicate evaluator ID"
  let version ← item members "wasm_version"
  let version ← present version.int? "unsupported WASM version"
  require (version == 1 || version == 2) "unsupported WASM version"
  pure (members, id, version)

def validateInline (seen : List String) (entry : Json) :
    Except Error (List String) := do
  let (_, id, version) ← validateEvaluator inlineFields seen entry
  require (reserved.lookup id == some version) "invalid reserved inline ABI"
  pure (id :: seen)

def validateRegistered (seen : List String) (entry : Json) :
    Except Error (List String) := do
  let (members, id, _) ← validateEvaluator registeredFields seen entry
  require (reserved.lookup id).isNone "reserved ID cannot be registered"
  let name ← item members "name"
  require (nonblankStr name) "missing registered evaluator name"
  pure (id :: seen)

/-- `isinstance(entries, list)`. -/
def registryEntries : Json → Except Error (List Json)
  | .arr entries => .ok entries
  | _ => .error (.message "evaluator registry must be an array")

/-- A positive integer of at most 32 bits. -/
def boundedLimit (value : Json) : Bool :=
  match value.int? with
  | some n => 0 < n && n ≤ 0xFFFFFFFF
  | none => false

def validateProgramProfile (profile : Json) : Except Error Unit := do
  let members ← dict profile
    ["protocol", "inline_evaluators", "registered_evaluators",
      "max_connections", "request_timeout_secs", "ark_signing"]
    "invalid program profile fields"
  let protocol ← item members "protocol"
  require (isStr protocol "SignProgramV1") "unsupported program wire protocol"
  let ark ← item members "ark_signing"
  validateArkSigning ark
  let inline ← item members "inline_evaluators"
  let inline ← registryEntries inline
  let seen ← inline.foldlM validateInline []
  let registry ← item members "registered_evaluators"
  let registry ← registryEntries registry
  let _ ← registry.foldlM validateRegistered seen
  for field in ["max_connections", "request_timeout_secs"] do
    let value ← item members field
    require (boundedLimit value)
      "program limits must be positive bounded integers"

/-! ## Settings and key -/

/-- `XPUB_VERSIONS`. -/
def xpubVersions : List (String × Bytes) :=
  [("bitcoin", [0x04, 0x88, 0xb2, 0x1e]),
    ("testnet", [0x04, 0x35, 0x87, 0xcf]),
    ("testnet4", [0x04, 0x35, 0x87, 0xcf]),
    ("signet", [0x04, 0x35, 0x87, 0xcf]),
    ("regtest", [0x04, 0x35, 0x87, 0xcf])]

def validateSettings (settings : Json) : Except Error Members := do
  let members ← dict settings settingsFields
    "settings must contain exactly key_id, blockhash and network"
  require (members.all fun m => nonemptyStr m.2)
    "all settings must be nonempty strings"
  let network ← item members "network"
  require (xpubVersions.lookup (network.str?.getD "")).isSome
    "unknown Bitcoin network in settings"
  pure members

/-- The loop over the characters. -/
def base58Value (n : Nat) (c : Char) : Except Error Nat := do
  let index ← present (base58Alphabet.idxOf? c)
    "xpub contains a character outside base58"
  pure (n * 58 + index)

def base58checkDecode (value : Json) : Except Error Bytes := do
  require (nonemptyStr value) "xpub must be a nonempty string"
  let chars := (value.str?.getD "").toList
  let number ← chars.foldlM base58Value 0
  let ones := chars.length - (chars.dropWhile (· == '1')).length
  let decoded := List.replicate ones 0 ++ beBytes number
  require (decoded.length == 82)
    "xpub must decode to a 78-byte payload plus checksum"
  let payload := decoded.take 78
  require (checksum V.sha256 payload == decoded.drop 78)
    "xpub base58check checksum mismatch"
  pure payload

/-- `while number` of the tests' encoder: the digits in front of what is
there. -/
def encodeNumber (number : Nat) (encoded : List Char) : List Char :=
  if number = 0 then encoded
  else encodeNumber (number / 58) (base58Char (number % 58) :: encoded)
termination_by number
decreasing_by omega

/-- `for byte in decoded` of the tests' encoder. -/
def encodeZeros : Bytes → List Char → List Char
  | [], encoded => encoded
  | byte :: rest, encoded =>
      if byte != 0 then encoded else encodeZeros rest ('1' :: encoded)

/-- `base58check_encode` of `tests/test_attestation.py`. -/
def base58checkEncode (payload : Bytes) : String :=
  let decoded := payload ++ checksum V.sha256 payload
  String.ofList (encodeZeros decoded (encodeNumber (beNat decoded) []))

/-- `XPUB_VERSIONS[network]`. -/
def xpubVersion (network : String) : Except Error Bytes :=
  match xpubVersions.lookup network with
  | some version => .ok version
  | none => .error (.upstream "KeyError")

def validateXpub (xpub : Json) (network : String) : Except Error Unit := do
  let payload ← base58checkDecode V xpub
  let version ← xpubVersion network
  require (payload.take 4 == version)
    "xpub version bytes do not match the claimed settings network"
  relabel (V.fromEncodedPoint ((payload.take 78).drop 45))
    "xpub does not carry a valid secp256k1 public key"

/-- The part of `verify` that is about the identity. -/
def verifyIdentity (identityJson : String) (settings programProfile : Json) :
    Except Error Json := do
  validateProgramProfile programProfile
  let expected ← validateSettings settings
  let identity ← jsonValue V identityJson
  let members ← dict identity identityFields "unexpected identity fields"
  let protocol ← item members "protocol"
  let mode ← item members "mode"
  require (isStr protocol "sapio-tee/program-oracle/1" && isStr mode "nitro")
    "not a Nitro program signer identity"
  let signing ← item members "signing"
  validateProgramProfile signing
  require (Json.eq signing programProfile) "program profile mismatch"
  let published ← item members "settings"
  require (Json.eq published settings) "setup settings mismatch"
  let xpub ← item members "xpub"
  let network ← item expected "network"
  validateXpub V xpub (network.str?.getD "")
  pure identity

/-- `verify`. `attested` is what lies between the two validations and the
identity: the `identity_json` the attestation document is found to bind, or
why it is refused. `verifyIdentity` makes the validations again, to the same
end. -/
def verify (attested : Except Error String) (settings programProfile : Json) :
    Except Error Json := do
  validateProgramProfile programProfile
  let _ ← validateSettings settings
  let identityJson ← attested
  verifyIdentity V identityJson settings programProfile

end Verifier

end SapioTee
