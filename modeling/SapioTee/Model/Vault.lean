import SapioTee.Model.Crates
import SapioTee.Model.Guest

/-!
# The vault example (`examples/vault/contract.rs`, `predicate.rs`)

`contractInstance` is what a client commits to: the module and its
parameters, a fee cap and a destination script. `evaluate` is the module's
predicate, which reads both back beside the signed view and allows only a
sweep of the one input to that script within the cap.

The predicate answers in three ways: it cannot read its arguments (nothing),
it reads a transaction that is not such a sweep (false), or one that is. It
stops reading the view as soon as the answer is false.
-/

namespace SapioTee

open Lib

namespace Vault

open Guest

/-! ## The contract -/

/-- `max_fee:u64LE || script_len:u32LE || script`. -/
def instanceParameters (maxFeeSatoshis : UInt64) (destination : Script) :
    Except Error Bytes :=
  match tryU32 destination.length with
  | none => .error (.message "destination script too large")
  | some scriptLen =>
      .ok (u64Le maxFeeSatoshis ++ u32Le scriptLen ++ destination)

/-- `instance`; `ProgramInstance::wasm` and the module are the crate's and
the build's. -/
def contractInstance (wasm : Bytes → Bytes → Except String ProgramInstance)
    (vaultWasm : Bytes) (maxFeeSatoshis : UInt64) (destination : Script) :
    Except Error ProgramInstance := do
  let parameters ← instanceParameters maxFeeSatoshis destination
  outside (wasm vaultWasm parameters)

/-! ## The predicate -/

/-- `u64::from_le_bytes` on an eight-byte slice. -/
def u64FromLe (bytes : Bytes) : UInt64 := UInt64.ofNat (leNat bytes)

/-- `u64::checked_sub`. -/
def checkedSub (a b : UInt64) : Option UInt64 :=
  if b ≤ a then some (a - b) else none

/-- The commitment: the fee cap and the destination, and nothing after. -/
def readParameters (parameters : Bytes) : Option (UInt64 × Bytes) := do
  let (maxFee, params) ← (Reader.new parameters).take 8
  let (destinationLength, params) ← params.u32
  let (destination, params) ← params.take destinationLength.toNat
  if !params.isFinished then none
  else pure (u64FromLe maxFee, destination)

/-- The last comparison. -/
def settles (maxFee : UInt64) (destination : Bytes)
    (inputValue outputValue : UInt64) (outputScript : Bytes) : Option Bool :=
  match checkedSub inputValue outputValue with
  | none => some false
  | some fee =>
      some (outputScript == destination && decide (330 ≤ outputValue) &&
        decide (fee ≤ maxFee))

/-- The rest of the view, once there is one input and it is selected. -/
def readSweep (maxFee : UInt64) (destination : Bytes) (reader : Reader) :
    Option Bool := do
  let (_, reader) ← reader.take 36
  let (_, reader) ← reader.take 4
  let (inputValue, reader) ← reader.take 8
  let (inputScriptLength, reader) ← reader.u32
  let (_, reader) ← reader.take inputScriptLength.toNat
  let (outputCount, reader) ← reader.u32
  if outputCount ≠ 1 then pure false
  else
    let (outputValue, reader) ← reader.take 8
    let (outputScriptLength, reader) ← reader.u32
    let (outputScript, reader) ← reader.take outputScriptLength.toNat
    if !reader.isFinished then none
    else
      settles maxFee destination (u64FromLe inputValue)
        (u64FromLe outputValue) outputScript

def evaluate (args : Arguments) : Option Bool := do
  if !args.program.isEmpty || !args.witness.isEmpty then none
  else
    let (maxFee, destination) ← readParameters args.parameters
    let (_, reader) ← (Reader.new args.view).take 8
    let (selectedIndex, reader) ← reader.u32
    let (inputCount, reader) ← reader.u32
    if selectedIndex ≠ 0 ∨ inputCount ≠ 1 then pure false
    else readSweep maxFee destination reader

end Vault

end SapioTee
