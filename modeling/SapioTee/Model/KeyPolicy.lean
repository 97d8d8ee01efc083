import SapioTee.Lib.Policy
import SapioTee.Model.Attestation

/-!
# Measurements and the policy of the KMS key

`deploy/terraform/build.py` reads the measurements of the image it built,
`deploy/key-policy.py` writes one of them into the policy of the key, and
whoever verifies an attestation passes all three to
`scripts/verify-attestation.py`. Three readers of one file, each with checks
of its own.

A policy is the dict `build_policy` returns, as statements; what KMS makes of
it is no part of the program.
-/

namespace SapioTee

open Lib

/-- `[0-9a-fA-F]{96}`. -/
def hex96 (text : String) : Bool :=
  text.toList.length == 96 && text.toList.all fun c => (hexValue c).isSome

/-- `str.lower` on ASCII. -/
def lower (text : String) : String := String.ofList (Policy.lowered text)

/-! ## `deploy/terraform/build.py` -/

namespace Build

variable {T : Types} (V : VerifierCrates T)

structure Measurements where
  pcr0 : String
  pcr1 : String
  pcr2 : String

/-- One round of the loop of `measurements`. -/
def measurement (path : String) (values : Members) (name : String) :
    Except Error String := do
  let value ← present ((Json.get values name).bind Json.str?)
    (path ++ ": " ++ name ++ " must be exactly 96 hexadecimal characters")
  require (hex96 value)
    (path ++ ": " ++ name ++ " must be exactly 96 hexadecimal characters")
  require (Initialize.intBase16 value != 0)
    (path ++ ": " ++ name ++ " is zero; debug-mode measurements are forbidden")
  pure (lower value)

def measurements (path encoded : String) : Except Error Measurements := do
  require (encoded.toList.length ≤ 16384)
    ("measurement file is unexpectedly large: " ++ path)
  match V.loads encoded with
  | none => .error (.upstream "JSONDecodeError")
  | some (.obj values) => do
      let pcr0 ← measurement path values "PCR0"
      let pcr1 ← measurement path values "PCR1"
      let pcr2 ← measurement path values "PCR2"
      pure ⟨pcr0, pcr1, pcr2⟩
  | some _ =>
      .error (.message ("measurements must be a flat JSON object: " ++ path))

/-- `{index: bytes.fromhex(..) for index in range(3)}`, as `main` of
`scripts/verify-attestation.py` reads its options. -/
def Measurements.pins (m : Measurements) : Option Verifier.Pins := do
  let pcr0 ← unhexChars m.pcr0.toList
  let pcr1 ← unhexChars m.pcr1.toList
  let pcr2 ← unhexChars m.pcr2.toList
  pure [(0, pcr0), (1, pcr1), (2, pcr2)]

end Build

/-! ## `deploy/key-policy.py` -/

namespace KeyPolicy

open Policy

def pcrKey : String := "kms:RecipientAttestation:PCR0"

/-- `[0-9]{12}`. -/
def isAccount (account : List Char) : Bool :=
  account.length == 12 && account.all Char.isDigit

/-- The characters of a role's path and name. -/
def roleChar (c : Char) : Bool :=
  c.isAlphanum || "_+=-,.@/".toList.contains c

/-- The account that `ROLE_ARN` takes; its two groups are of one length and
to the end. -/
def roleArn (arn : String) : Option String := do
  let rest ← "arn:aws:iam::".toList.isPrefixOf? arn.toList
  let name ← ":role/".toList.isPrefixOf? (rest.drop 12)
  if isAccount (rest.take 12) && !name.isEmpty && name.all roleChar then
    some (String.ofList (rest.take 12))
  else none

/-- `[a-z]{2}(?:-[a-z]+)+-[0-9]+`. -/
def isRegion (region : List Char) : Bool :=
  match region.splitOn '-' with
  | head :: rest =>
      head.length == 2 && head.all Char.isLower && 2 ≤ rest.length &&
        (rest.dropLast.all fun part =>
          !part.isEmpty && part.all Char.isLower) &&
        rest.getLast?.any fun part => !part.isEmpty && part.all Char.isDigit
  | [] => false

/-- `[0-9a-fA-F]{8}-..-[0-9a-fA-F]{12}|mrk-[0-9a-fA-F]{32}`. -/
def isKey (key : List Char) : Bool :=
  let hex := fun part : List Char => part.all fun c => (hexValue c).isSome
  let parts := key.splitOn '-'
  (parts.map List.length == [8, 4, 4, 4, 12] && parts.all hex) ||
    match "mrk-".toList.isPrefixOf? key with
    | some id => id.length == 32 && hex id
    | none => false

/-- The region and the account that `KEY_ARN` takes; neither of its groups
nor its key holds a colon. -/
def keyArn (arn : String) : Option (List Char × String) :=
  match arn.toList.splitOn ':' with
  | [scheme, partition, service, region, account, resource] =>
      if scheme == "arn".toList && partition == "aws".toList &&
          service == "kms".toList && isRegion region && isAccount account &&
          ("key/".toList.isPrefixOf? resource).any isKey then
        some (region, String.ofList account)
      else none
  | _ => none

structure Policy where
  version : String
  id : String
  statement : List Statement

def administration (admin : String) : Statement where
  sid := "SeparateKeyAdministration"
  effect := .allow
  principal := .aws admin
  actions := ["kms:DescribeKey", "kms:GetKeyPolicy", "kms:ListKeyPolicies",
    "kms:GetKeyRotationStatus", "kms:PutKeyPolicy", "kms:EnableKey",
    "kms:DisableKey", "kms:UpdateKeyDescription", "kms:TagResource",
    "kms:UntagResource", "kms:ListResourceTags", "kms:ScheduleKeyDeletion",
    "kms:CancelKeyDeletion"]
  resource := "*"
  conditions := []

def derivation (parent pcr0 : String) : Statement where
  sid := "ParentMayDeriveOnlyForMeasuredEnclave"
  effect := .allow
  principal := .aws parent
  actions := ["kms:DeriveSharedSecret"]
  resource := "*"
  conditions := [⟨.stringEqualsIgnoreCase, pcrKey, pcr0⟩,
    ⟨.stringEquals, "kms:KeyAgreementAlgorithm", "ECDH"⟩,
    ⟨.stringEquals, "kms:KeySpec", "ECC_NIST_P256"⟩,
    ⟨.stringEquals, "kms:KeyUsage", "KEY_AGREEMENT"⟩]

/-- The two statements that deny. -/
def denial (sid : String) (condition : Condition) : Statement where
  sid := sid
  effect := .deny
  principal := .everyone
  actions := ["kms:DeriveSharedSecret"]
  resource := "*"
  conditions := [condition]

/-- `build_policy`. -/
def buildPolicy (adminRoleArn parentRoleArn pcr0 : String)
    (key : Option String) : Except Error Policy := do
  let wrong := "principals must be complete commercial-partition IAM role " ++
    "ARNs, without wildcards"
  let admin ← present (roleArn adminRoleArn) wrong
  let parent ← present (roleArn parentRoleArn) wrong
  require (admin == parent)
    "administrator and parent role must be in the same AWS account"
  require (adminRoleArn != parentRoleArn)
    "administrator and parent roles must be different"
  match key with
  | none => pure ()
  | some arn => do
      let outside := "key ARN must identify a key in the commercial aws " ++
        "partition; aliases are not accepted"
      let (region, account) ← present (keyArn arn) outside
      require (!"cn-".toList.isPrefixOf region &&
        !"us-gov-".toList.isPrefixOf region) outside
      require (account == admin)
        "key, administrator, and parent role must be in the same AWS account"
  require (hex96 pcr0 && Initialize.intBase16 pcr0 != 0)
    ("PCR0 must be exactly 96 hexadecimal characters and must not be all " ++
      "zero (debug mode)")
  let pcr0 := lower pcr0
  pure
    { version := "2012-10-17"
      id := match key with
        | none => "sapio-tee"
        | some arn => "sapio-tee:" ++ arn
      statement := [administration adminRoleArn, derivation parentRoleArn pcr0,
        denial "DenyDerivationWithoutRecipientAttestation"
          ⟨.null, pcrKey, "true"⟩,
        denial "DenyDerivationOutsideMeasuredEnclave"
          ⟨.stringNotEqualsIgnoreCase, pcrKey, pcr0⟩] }

end KeyPolicy

end SapioTee
