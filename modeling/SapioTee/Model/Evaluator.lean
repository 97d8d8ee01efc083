import SapioTee.Model.Crates

/-!
# Evaluating a program over a signed transaction (`src/evaluator.rs`)

`authorize` checks that the PSBT is the one the intent signs, picks the
module the program names and runs it. The guest is shown exactly four byte
strings: program, parameters, the encoded view of the transaction and the
caller's witness. `encodeView` computes the view's size in a first pass that
stops at the limit, and writes it in a second.

An `EvaluationError` and a panic are kept apart (`Fault`): the first is an
answer to the client, the second is an `expect` or an index that the callers
have ruled out.
-/

namespace SapioTee

open Lib

inductive Fault where
  | evaluation (text : String)
  | panic (text : String)
  deriving DecidableEq

/-- `failure`. -/
def failure {α : Type} (text : String) : Except Fault α :=
  .error (.evaluation text)

def maxProgramBytes : Nat := 65536
def maxParameterBytes : Nat := 65536
def maxWitnessBytes : Nat := 65536
def maxSignedViewBytes : Nat := 1048576
def maxFunctionSlots : Nat := 65536
def cryptoNamespace : String := "sapio_crypto_v1"
def cryptoNamespaceV2 : String := "sapio_crypto_v2"

/-! ## The signed view -/

def addSize (size amount : Nat) : Except Fault Nat :=
  match (checkedAdd size amount).filter (· ≤ maxSignedViewBytes) with
  | some total => .ok total
  | none => failure "signed transaction view exceeds 1048576 bytes"

/-- One item of the `prevouts` iterator. -/
def prevout (map : PsbtInput) : Except Fault TxOut :=
  match map.witnessUtxo with
  | some output => .ok output
  | none => .error (.panic "native context authenticated every prevout")

def sizeInputs : List PsbtInput → Nat → Except Fault Nat
  | [], size => .ok size
  | map :: maps, size => do
      let output ← prevout map
      let size ← addSize size 52
      let size ← addSize size output.scriptPubkey.length
      sizeInputs maps size

def sizeOutputs : List TxOut → Nat → Except Fault Nat
  | [], size => .ok size
  | output :: outputs, size => do
      let size ← addSize size 12
      let size ← addSize size output.scriptPubkey.length
      sizeOutputs outputs size

/-- The first pass: the size of the view, or a refusal as soon as it is past
the limit. -/
def viewSize (version : WasmVersion) (input : SigningInput) :
    Except Fault Nat := do
  let size ← sizeInputs input.psbt.inputs 20
  let size ← sizeOutputs input.psbt.unsignedTx.output size
  match version with
  | .v1 => pure size
  | .v2 => addSize size 36

def encodeInput (txin : TxIn) (output : TxOut) : Bytes :=
  txin.previousOutput.encode ++ u32Le txin.sequence ++ u64Le output.value ++
    u32Le (asU32 output.scriptPubkey.length) ++ output.scriptPubkey

def encodeOutput (output : TxOut) : Bytes :=
  u64Le output.value ++ u32Le (asU32 output.scriptPubkey.length) ++
    output.scriptPubkey

/-- The second pass over the inputs: `tx.input` zipped with the prevouts. -/
def encodeInputs : List TxIn → List PsbtInput → Except Fault Bytes
  | txin :: txins, map :: maps => do
      let output ← prevout map
      let bytes ← encodeInputs txins maps
      pure (encodeInput txin output ++ bytes)
  | _, _ => pure []

def countU32 (n : Nat) : Except Fault UInt32 :=
  match tryU32 n with
  | some count => .ok count
  | none => failure "out of range integral type conversion attempted"

theorem countU32_ok {n : Nat} {count : UInt32} (h : countU32 n = .ok count) :
    count.toNat = n := by
  unfold countU32 at h
  split at h
  · next hsome =>
      injection h with h
      subst h
      exact (tryU32_eq_some hsome).2
  · cases h

theorem countU32_of_lt {n : Nat} (h : n < 2 ^ 32) :
    countU32 n = .ok (UInt32.ofNat n) := by
  rw [countU32, tryU32, if_pos h]

/-- The end of a view: nothing in v1, the internal key and an empty annex
in v2. -/
def encodeTail (version : WasmVersion) (input : SigningInput) :
    Except Fault Bytes :=
  match version with
  | .v1 => .ok []
  | .v2 =>
      match input.psbt.inputs[input.inputIndex]? with
      | none => .error (.panic "index out of bounds")
      | some map =>
          match map.tapInternalKey with
          | none => failure "missing authenticated internal key"
          | some key => .ok (key.toList ++ u32Le 0)

def encodeView (version : WasmVersion) (input : SigningInput) :
    Except Fault Bytes := do
  let tx := input.psbt.unsignedTx
  -- The size only reserves the buffer and feeds a debug assertion.
  let _size ← viewSize version input
  let inputCount ← countU32 tx.input.length
  let outputCount ← countU32 tx.output.length
  let inputIndex ← countU32 input.inputIndex
  let inputs ← encodeInputs tx.input input.psbt.inputs
  let tail ← encodeTail version input
  pure (i32Le tx.version ++ u32Le tx.lockTime ++ u32Le inputIndex ++
    u32Le inputCount ++ inputs ++ u32Le outputCount ++
    tx.output.flatMap encodeOutput ++ tail)

/-! ## Admitting a module -/

def checkModuleBytes (module : Bytes) : Except Fault Unit :=
  if module.length > maxProgramBytes then
    failure "WASM evaluator module exceeds 65536 bytes"
  else if !([0, 97, 115, 109, 1, 0, 0, 0] : Bytes).isPrefixOf module then
    failure "WASM evaluator requires a version-one binary module"
  else .ok ()

/-- `payload.map_err(failure)?` and its siblings. -/
def decoded {α : Type} : Except String α → Except Fault α
  | .ok x => .ok x
  | .error text => failure text

structure Budget where
  functionTypes : List FuncType
  slots : Nat

/-- `add_slots`: `checked_add` on `u32`, then the limit. -/
def addSlots (budget : Budget) (count : Nat) : Except Fault Budget :=
  if budget.slots + count < 2 ^ 32 ∧ budget.slots + count ≤ maxFunctionSlots then
    .ok { budget with slots := budget.slots + count }
  else
    failure "WASM evaluator exceeds 65536 function parameter/local slots"

def expectedParams (version : WasmVersion) (module name : String) :
    Option Nat :=
  if module = cryptoNamespace ∧ (name = "sha256" ∨ name = "schnorr_verify") then
    some 3
  else if module = cryptoNamespace ∧ name = "bip32_derive" then some 4
  else if module = cryptoNamespaceV2 ∧
      (name = "schnorr_verify" ∨ name = "xonly_tweak_check") ∧ version = .v2 then
    some 4
  else none

def checkImport (version : WasmVersion) (budget : Budget) (entry : Import) :
    Except Fault Unit :=
  match expectedParams version entry.module entry.name with
  | none => failure "unsupported WASM evaluator crypto import or namespace"
  | some expected =>
      match entry.ty with
      | .other => failure "WASM evaluator imports must be crypto functions"
      | .func index =>
          match budget.functionTypes[index.toNat]? with
          | none => failure "WASM evaluator import has an unknown type"
          | some ty =>
              if ty.params.length ≠ expected ∨ ty.params.any (· ≠ .i32) ∨
                  ty.results ≠ [.i32] then
                failure "WASM evaluator crypto import has an invalid signature"
              else .ok ()

def addTypes : List (Except String FuncType) → Budget → Except Fault Budget
  | [], budget => .ok budget
  | ty :: types, budget => do
      let ty ← decoded ty
      addTypes types { budget with functionTypes := budget.functionTypes ++ [ty] }

def checkImports (version : WasmVersion) :
    List (Except String Import) → Budget → Except Fault Unit
  | [], _ => .ok ()
  | entry :: imports, budget => do
      let entry ← decoded entry
      checkImport version budget entry
      checkImports version imports budget

def addFunctions : List (Except String UInt32) → Budget → Except Fault Budget
  | [], budget => .ok budget
  | index :: functions, budget => do
      let index ← decoded index
      match budget.functionTypes[index.toNat]? with
      | none => failure "WASM evaluator function has an unknown type"
      | some ty => do
          let params ← countU32 ty.params.length
          let budget ← addSlots budget params.toNat
          addFunctions functions budget

def addLocals : List (Except String UInt32) → Budget → Except Fault Budget
  | [], budget => .ok budget
  | count :: locals, budget => do
      let count ← decoded count
      let budget ← addSlots budget count.toNat
      addLocals locals budget

def checkPayload (version : WasmVersion) (budget : Budget) :
    Payload → Except Fault Budget
  | .typeSection types => addTypes types budget
  | .importSection imports => do
      checkImports version imports budget
      pure budget
  | .functionSection functions => addFunctions functions budget
  | .codeSectionEntry locals => do
      let locals ← decoded locals
      addLocals locals budget
  | .startSection =>
      failure "WASM evaluator modules cannot have a start function"
  | .other => .ok budget

def checkPayloads (version : WasmVersion) :
    List (Except String Payload) → Budget → Except Fault Unit
  | [], _ => .ok ()
  | payload :: payloads, budget => do
      let payload ← decoded payload
      let budget ← checkPayload version budget payload
      checkPayloads version payloads budget

section

variable {T : Types} (C : Crates T)

def checkCompilationBudget (version : WasmVersion) (module : Bytes) :
    Except Fault Unit :=
  checkPayloads version (C.parseAll module) ⟨[], 0⟩

/-! ## Running the guest -/

def allocateName : WasmVersion → String
  | .v1 => "sapio_alloc_v1"
  | .v2 => "sapio_alloc_v2"

def evaluateName : WasmVersion → String
  | .v1 => "sapio_evaluate_v1"
  | .v2 => "sapio_evaluate_v2"

def executionError (store : Store T) (operation error : String) : Fault :=
  if C.exhausted store then
    .evaluation ("WASM evaluator exhausted 100000000 fuel points during " ++
      operation)
  else .evaluation ("WASM evaluator " ++ operation ++ " failed: " ++ error)

structure Range where
  start : Nat
  stop : Nat

def Range.isEmpty (r : Range) : Bool := !decide (r.start < r.stop)

/-- The overlap test against an earlier range; an empty placeholder never
overlaps. -/
def Range.overlaps (r previous : Range) : Bool :=
  !previous.isEmpty && decide (r.start < previous.stop) &&
    decide (previous.start < r.stop)

/-- The allocation loop. `ranges` holds one range per input already seen. -/
def allocateAll (version : WasmVersion) : List Bytes → List Range → Store T →
    Except Fault (List Range × Store T)
  | [], ranges, store => .ok (ranges, store)
  | bytes :: inputs, ranges, store =>
      if bytes.isEmpty then
        allocateAll version inputs (ranges ++ [⟨0, 0⟩]) store
      else
        match C.allocate store (Int32.ofNat bytes.length) with
        | (.error error, store) =>
            .error (executionError C store (allocateName version) error)
        | (.ok pointer, store) =>
            let start := pointer.toUInt32.toNat
            let range : Range := ⟨start, (start + bytes.length) % 2 ^ 64⟩
            if range.stop > store.memory.length then
              failure "WASM evaluator allocation is outside linear memory"
            else if ranges.any range.overlaps then
              failure "WASM evaluator input allocations overlap"
            else allocateAll version inputs (ranges ++ [range]) store

/-- `MemoryView::write`. -/
def Store.write (store : Store T) (offset : Nat) (bytes : Bytes) :
    Except Fault (Store T) :=
  if offset + bytes.length ≤ store.memory.length then
    .ok { store with
      memory := store.memory.take offset ++ bytes ++
        store.memory.drop (offset + bytes.length) }
  else failure "memory access out of bounds"

def copyAll : List (Bytes × Range) → Store T → Except Fault (Store T)
  | [], store => .ok store
  | (bytes, range) :: rest, store => do
      let store ← store.write range.start bytes
      copyAll rest store

/-- `as i32` on a `u64` or a `usize`. -/
def asI32 (n : Nat) : Int32 := Int32.ofNat n

def evaluationArguments (inputs : Vector Bytes 4) (ranges : List Range) :
    Vector Int32 8 :=
  let start (i : Nat) : Int32 := asI32 ((ranges[i]?.map Range.start).getD 0)
  #v[start 0, asI32 inputs[0].length, start 1, asI32 inputs[1].length,
    start 2, asI32 inputs[2].length, start 3, asI32 inputs[3].length]

def runGuest (version : WasmVersion) (inputs : Vector Bytes 4)
    (store : Store T) : Except Fault Bool := do
  let (ranges, store) ← allocateAll C version inputs.toList [] store
  -- All regions are allocated before anything is copied, so an allocator
  -- cannot rewrite an earlier input while allocating a later one.
  let store ← copyAll (inputs.toList.zip ranges) store
  match C.evaluate store (evaluationArguments inputs ranges) with
  | (.error error, store) =>
      .error (executionError C store (evaluateName version) error)
  | (.ok result, _) =>
      if result = 0 then .ok false
      else if result = 1 then .ok true
      else failure "WASM evaluator must return exactly zero or one"

def evaluate (version : WasmVersion) (module program parameters : Bytes)
    (input : SigningInput) (witness : Bytes) : Except Fault Bool := do
  checkModuleBytes module
  checkCompilationBudget C version module
  if program.length > maxProgramBytes ∨ parameters.length > maxParameterBytes ∨
      witness.length > maxWitnessBytes then
    failure "WASM evaluator input exceeds its byte limit"
  else do
    let encodedView ← encodeView version input
    let store ← decoded (C.instantiate version module)
    runGuest C version #v[program, parameters, encodedView, witness] store

/-! ## The two halves of a call

`evaluate` once more, cut where the guest is entered: what the guest is handed,
and how its answer is read. -/

/-- The arguments the guest is called with, and the store it is called in. -/
def guestCall (version : WasmVersion) (inputs : Vector Bytes 4)
    (store : Store T) : Except Fault (Store T × Vector Int32 8) := do
  let (ranges, store) ← allocateAll C version inputs.toList [] store
  let store ← copyAll (inputs.toList.zip ranges) store
  pure (store, evaluationArguments inputs ranges)

/-- How the answer of the call is read. -/
def readAnswer (version : WasmVersion)
    (call : Store T × Vector Int32 8) : Except Fault Bool :=
  match C.evaluate call.1 call.2 with
  | (.error error, store) =>
      .error (executionError C store (evaluateName version) error)
  | (.ok result, _) =>
      if result = 0 then .ok false
      else if result = 1 then .ok true
      else failure "WASM evaluator must return exactly zero or one"

/-- `evaluate`, as far as the call of the guest's `evaluate`. -/
def evaluationCall (version : WasmVersion) (module program parameters : Bytes)
    (input : SigningInput) (witness : Bytes) :
    Except Fault (Store T × Vector Int32 8) := do
  checkModuleBytes module
  checkCompilationBudget C version module
  if program.length > maxProgramBytes ∨ parameters.length > maxParameterBytes ∨
      witness.length > maxWitnessBytes then
    failure "WASM evaluator input exceeds its byte limit"
  else do
    let encodedView ← encodeView version input
    let store ← decoded (C.instantiate version module)
    guestCall C version #v[program, parameters, encodedView, witness] store

/-! ## Authorization -/

structure WasmEvaluator where
  id : Hash
  version : WasmVersion
  module : Bytes

/-- The module to run, the program bytes it is shown and its version: the
program itself when it is inline, else the registered evaluator. -/
def selectModule (registry : List WasmEvaluator) (program : ProgramInstance) :
    Except Error (Bytes × Bytes × WasmVersion) :=
  match C.inlineWasmVersion program.evaluator with
  | some version => .ok (program.program, [], version)
  | none =>
      match registry.find? (fun entry => entry.id == program.evaluator) with
      | none => .error (.program (.unknownEvaluator program.evaluator))
      | some evaluator =>
          .ok (evaluator.module, program.program, evaluator.version)

/-- `map_err(ProgramError::Evaluation)`; a panic stays one. -/
def Fault.toError : Fault → Error
  | .evaluation text => .program (.evaluation text)
  | .panic text => .panic text

def checkPsbt (psbt : Psbt) : Except Error Unit :=
  match C.validatePsbt psbt with
  | .ok () => .ok ()
  | .error text => .error (.program (.psbt text))

/-- The selected input is neither finalized nor carries an annex. -/
def checkMetadata (input : SigningInput) : Except Error Unit :=
  match input.psbt.inputs[input.inputIndex]? with
  | none => .error (.panic "index out of bounds")
  | some metadata =>
      if metadata.finalScriptSig.isSome ∨ metadata.finalScriptWitness.isSome then
        .error (.program .finalizedInput)
      else do
        let annex ← outside (C.annex metadata)
        ensure annex.isNone "native Ark signing does not support an annex"

def authorize (registry : List WasmEvaluator) (program : ProgramInstance)
    (input : SigningInput) (witness : Bytes) (message : Hash) :
    Except Error Unit := do
  checkPsbt C input.psbt
  let hash ← outside (C.sighash input)
  ensure (hash == message)
    "evaluated transaction differs from the nested signing intent"
  checkMetadata C input
  let (module, selector, version) ← selectModule C registry program
  match evaluate C version module selector program.parameters input witness with
  | .error fault => .error fault.toError
  | .ok false => .error (.program .rejected)
  | .ok true => .ok ()

end

end SapioTee
