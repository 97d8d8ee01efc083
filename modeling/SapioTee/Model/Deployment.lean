import SapioTee.Model.ArkSigner
import SapioTee.Model.Keys

/-!
# The measured profile and registry (`src/deployment.rs`)

One table of registered evaluators feeds the advertised profile and both
execution paths. The oracle itself, the evaluator ids and the module bytes
of the table are outside code and data.
-/

namespace SapioTee

open Lib

structure ArkSigningProfile where
  protocol : String
  maxPendingSessions : Nat
  maxSessionsPerUser : Nat
  sessionLifetimeSecs : Nat
  nativeOwnershipPolicy : Bool
  deriving DecidableEq

structure InlineEvaluator where
  id : Hash
  wasmVersion : UInt8
  deriving DecidableEq

structure RegisteredEvaluator where
  name : String
  id : Hash
  wasmVersion : UInt8
  deriving DecidableEq

structure ProgramProfile where
  protocol : String
  inlineEvaluators : List InlineEvaluator
  registeredEvaluators : List RegisteredEvaluator
  maxConnections : Nat
  requestTimeoutSecs : Nat
  arkSigning : ArkSigningProfile
  deriving DecidableEq

def identityProtocol : String := "sapio-tee/program-oracle/1"
def maxConnections : Nat := 4
def requestTimeoutSecs : Nat := 30

/-- The crates the deployment is built from. -/
structure OracleCrates (T : Types) where
  ProgramOracle : Type
  payAtLeastWasm : Bytes
  withVersion : WasmVersion → Bytes → Except String WasmEvaluator
  oracleNew : T.Xpriv → List WasmEvaluator → Except String ProgramOracle
  oraclePublicRoot : ProgramOracle → T.Xpub
  /-- `EvaluatorId::wasm` and its siblings. -/
  wasmId : Hash
  wasmV2Id : Hash
  forWasmVersion : Bytes → WasmVersion → Hash

section

variable {T : Types} (O : OracleCrates T)

/-- `REGISTERED`. -/
def registered : List (String × WasmVersion × Bytes) :=
  [("pay-at-least/v1", .v1, O.payAtLeastWasm)]

def evaluators : Except Error (List WasmEvaluator) :=
  (registered O).mapM fun (_, version, module) =>
    outside (O.withVersion version module)

def wasmVersionNumber : WasmVersion → UInt8
  | .v1 => 1
  | .v2 => 2

def programProfile : ProgramProfile where
  protocol := "SignProgramV1"
  inlineEvaluators := [⟨O.wasmId, 1⟩, ⟨O.wasmV2Id, 2⟩]
  registeredEvaluators := (registered O).map fun (name, version, module) =>
    ⟨name, O.forWasmVersion module version, wasmVersionNumber version⟩
  maxConnections := maxConnections
  requestTimeoutSecs := requestTimeoutSecs
  arkSigning :=
    { protocol := signingProtocol
      maxPendingSessions := maxPendingSessions
      maxSessionsPerUser := maxSessionsPerUser
      sessionLifetimeSecs := sessionLifetimeSecs
      nativeOwnershipPolicy := true }

def programOracle (root : T.Xpriv) : Except Error O.ProgramOracle := do
  let registry ← evaluators O
  outside (O.oracleNew root registry)

end

end SapioTee
