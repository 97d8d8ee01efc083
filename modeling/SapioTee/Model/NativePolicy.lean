import SapioTee.Model.Crates

/-!
# The native ownership policy (`src/native_policy.rs`)

A program may prefix its parameters with an envelope

  `MAGIC || u32_le(document_len) || JSON(document) || inner parameters`

whose document lists, per variant of an ownership proof, the destinations
the signer may release a partial for. `parse` reads the envelope, `enforce`
checks one proof against it, `encode` is the client's side of the layout.
The JSON reader and the two hex decoders are outside code.
-/

namespace SapioTee

open Lib

structure NativePolicy (T : Types) where
  offboard : List Script
  arkoor : List T.VtxoPolicy
  round : List T.VtxoPolicy
  delegatedRound : List T.VtxoPolicy
  status : Bool
  lightningReceive : Bool

namespace NativePolicy

def magic : Bytes := ascii "sapio-tee/native-ownership/v1"

variable {T : Types} (C : Crates T)

/-- One list of the document, decoded entry by entry in order; the first
entry that does not decode is the error. -/
def entries {α : Type} (decode : String → Except String α) (label : String)
    (values : List String) : Except Error (List α) :=
  values.mapM fun value =>
    match decode value with
    | .ok x => .ok x
    | .error error => .error (.message (label ++ error))

def scripts (values : List String) : Except Error (List Script) :=
  entries C.scriptFromHex "invalid offboard destination script: " values

def policies (values : List String) : Except Error (List T.VtxoPolicy) :=
  entries C.policyFromHex "invalid VTXO output policy: " values

/-- The entry-wise decoding of a document. -/
def ofDocument (document : Document) : Except Error (NativePolicy T) := do
  let offboard ← scripts C document.offboard
  let arkoor ← policies C document.arkoor
  let round ← policies C document.round
  let delegatedRound ← policies C document.delegatedRound
  pure ⟨offboard, arkoor, round, delegatedRound, document.status,
    document.lightningReceive⟩

/-- `&bytes[start..stop]`, which panics outside its range. -/
def slice (bytes : Bytes) (start stop : Nat) : Except Error Bytes :=
  if start ≤ stop ∧ stop ≤ bytes.length then
    .ok ((bytes.take stop).drop start)
  else .error (.panic "range out of bounds of the slice")

def parse (parameters : Bytes) : Except Error (Option (NativePolicy T)) :=
  match stripLead magic parameters with
  | none => .ok none
  | some rest => do
      ensure (4 ≤ rest.length) "native ownership policy envelope is truncated"
      let word ← slice rest 0 4
      let length := leNat word
      match checkedAdd 4 length with
      | none => .error (.message "native ownership policy length overflows")
      | some stop => do
          ensure (stop ≤ rest.length)
            "native ownership policy length exceeds the parameter blob"
          let bytes ← slice rest 4 stop
          match C.documentFromSlice bytes with
          | .error _ =>
              .error (.message "invalid native ownership policy JSON")
          | .ok document => do
              ensure (document.version == 1)
                "unsupported native ownership policy version"
              let policy ← ofDocument C document
              pure (some policy)

/-- The client's layout; `expect` refuses a document of 2^32 bytes or more. -/
def encode (document inner : Bytes) : Except Error Bytes :=
  match tryU32 document.length with
  | none => .error (.panic "document length fits u32")
  | some length => .ok (magic ++ u32Le length ++ document ++ inner)

def enforce (self : NativePolicy T) : OwnershipProof T → Except Error Unit
  | .status =>
      ensure self.status
        "native ownership policy does not allow status proofs"
  | .arkoor outputs =>
      ensure (outputs.all fun output => self.arkoor.contains output.policy)
        "native ownership policy does not allow an arkoor output policy"
  | .round _ outputs =>
      ensure (outputs.all fun output => self.round.contains output.vtxo.policy)
        "native ownership policy does not allow a round output policy"
  | .delegatedRound outputs =>
      ensure (outputs.all fun output =>
          self.delegatedRound.contains output.policy)
        "native ownership policy does not allow a delegated-round output policy"
  | .offboard request _ =>
      ensure (self.offboard.contains request.scriptPubkey)
        "native ownership policy does not allow the offboard destination"
  | .lightningReceive _ =>
      ensure self.lightningReceive
        "native ownership policy does not allow lightning receives"

end NativePolicy

end SapioTee
