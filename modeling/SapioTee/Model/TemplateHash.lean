import SapioTee.Model.Crates
import SapioTee.Model.Guest

/-!
# The BIP-446 template hash, in the guest and at the client

`Predicate` is `examples/templatehash/predicate.rs`: it parses the signed
view, re-serializes its outputs into a scratch buffer and hashes. `Client`
is the side of `examples/templatehash/main.rs` that a wallet computes the
committed hash with, from the transaction itself.

A scratch buffer is a slice of the arena no other slice overlaps, so it is
a value of its own here; the allocator's state is threaded through, and with
it every way of running out. Writes into the buffer are bounds-checked as in
the source. Buffers that are written from end to end at fixed offsets (the
hashed message) are the concatenation of their parts.
-/

namespace SapioTee

open Lib

/-! ## The client -/

namespace Client

/-- `push_compact_size`: the bytes it pushes. -/
def pushCompactSize (length : UInt64) : Bytes :=
  if length < 253 then [length.toUInt8]
  else if length ≤ 0xFFFF then 0xFD :: leBytes 2 length.toNat
  else if length ≤ 0xFFFFFFFF then 0xFE :: leBytes 4 length.toNat
  else 0xFF :: leBytes 8 length.toNat

variable (sha256 : Bytes → Hash)

def taggedHash (tag : String) (message : Bytes) : Hash :=
  let tagHash := sha256 (ascii tag)
  sha256 (tagHash.toList ++ tagHash.toList ++ message)

def shaSequences (transaction : Transaction) : Hash :=
  sha256 (transaction.input.flatMap fun input => u32Le input.sequence)

def serializeOutput (output : TxOut) : Bytes :=
  u64Le output.value ++
    pushCompactSize (UInt64.ofNat output.scriptPubkey.length) ++
    output.scriptPubkey

def shaOutputs (transaction : Transaction) : Hash :=
  sha256 (transaction.output.flatMap serializeOutput)

def templateHash (transaction : Transaction) (inputIndex : UInt32) : Hash :=
  taggedHash sha256 "TemplateHash"
    (i32Le transaction.version ++ u32Le transaction.lockTime ++
      (shaSequences sha256 transaction).toList ++
      (shaOutputs sha256 transaction).toList ++ [0] ++ u32Le inputIndex)

/-- `instance_for`; `ProgramInstance::wasm` and the module are the crate's
and the build's. -/
def instanceFor (wasm : Bytes → Bytes → Except String ProgramInstance)
    (templatehashWasm : Bytes) (transaction : Transaction)
    (inputIndex : UInt32) : Except Error ProgramInstance :=
  outside (wasm templatehashWasm
    (templateHash sha256 transaction inputIndex).toList)

end Client

/-! ## The predicate -/

namespace Predicate

open Guest

def tag : Bytes := ascii "TemplateHash"

/-- `scratch`: a fresh slice of the arena, which is still zero there. -/
def scratch (arena : Arena) (length : Nat) : Option (Bytes × Arena) := do
  let size ← tryU32 length
  let (pointer, arena) := arena.sapioAllocV1 size
  if pointer = 0 ∨ length = 0 then none
  else pure (List.replicate length 0, arena)

/-- `buffer.get_mut(start..stop)?.copy_from_slice(data)`. -/
def copyInto (buffer : Bytes) (start stop : Nat) (data : Bytes) :
    Option Bytes :=
  if start ≤ stop ∧ stop ≤ buffer.length then
    some (buffer.take start ++ data ++ buffer.drop stop)
  else none

def pushCompactSize (buffer : Bytes) (offset : Nat) (length : UInt32) :
    Option (Bytes × Nat) := do
  if length < 253 then
    let buffer ← copyInto buffer offset (wrapAdd offset 1) [length.toUInt8]
    pure (buffer, wrapAdd offset 1)
  else if length ≤ 0xFFFF then
    let buffer ← copyInto buffer offset (wrapAdd offset 3)
      (0xFD :: leBytes 2 length.toNat)
    pure (buffer, wrapAdd offset 3)
  else
    let buffer ← copyInto buffer offset (wrapAdd offset 5)
      (0xFE :: leBytes 4 length.toNat)
    pure (buffer, wrapAdd offset 5)

/-- The loop over the sequence slots: the bytes it wrote into them. -/
def fillSequences : Nat → Reader → Option (Bytes × Reader)
  | 0, view => some ([], view)
  | slots + 1, view => do
      let (_, view) ← view.take 36
      let (sequence, view) ← view.take 4
      let (_, view) ← view.take 8
      let (scriptLength, view) ← view.u32
      let (_, view) ← view.take scriptLength.toNat
      let (rest, view) ← fillSequences slots view
      pure (sequence ++ rest, view)

/-- The loop over the outputs. -/
def writeOutputs : Nat → Reader → Bytes → Nat → Option (Bytes × Nat × Reader)
  | 0, view, outputs, used => some (outputs, used, view)
  | count + 1, view, outputs, used => do
      let (value, view) ← view.take 8
      let (scriptLength, view) ← view.u32
      let (script, view) ← view.take scriptLength.toNat
      let outputs ← copyInto outputs used (wrapAdd used 8) value
      let used := wrapAdd used 8
      let (outputs, used) ← pushCompactSize outputs used scriptLength
      let outputs ← copyInto outputs used (wrapAdd used script.length) script
      writeOutputs count view outputs (wrapAdd used script.length)

variable (sha256 : Bytes → Hash)

/-- The three hashes and the comparison, once the view is parsed. -/
def finish (committed : Hash) (header sequences outputs : Bytes)
    (inputIndex : UInt32) : Option Bool := do
  let shaSequences ← hash sha256 sequences 32
  let shaOutputs ← hash sha256 outputs 32
  let tagHash ← hash sha256 tag 32
  let message := tagHash.toList ++ tagHash.toList ++ header.take 8 ++
    shaSequences.toList ++ shaOutputs.toList ++ [0] ++ u32Le inputIndex
  let digest ← hash sha256 message 32
  pure (digest == committed)

/-- `args.parameters.try_into().ok()?`. -/
def committedHash (parameters : Bytes) : Option Hash :=
  if h : parameters.length = 32 then some ⟨parameters.toArray, h⟩ else none

def evaluate (arena : Arena) (args : Arguments) : Option Bool := do
  if !args.program.isEmpty || !args.witness.isEmpty then none
  else
    let committed ← committedHash args.parameters
    let (header, view) ← (Reader.new args.view).take 16
    let inputIndex := Reader.u32FromLe ((header.drop 8).take 4)
    let inputCount := (Reader.u32FromLe ((header.drop 12).take 4)).toNat
    if inputIndex.toNat ≥ inputCount then none
    else
      let (sequences, arena) ← scratch arena (wrapMul 4 inputCount)
      let (slots, view) ← fillSequences (sequences.length / 4) view
      let sequences := slots ++ sequences.drop slots.length
      let (outputCount, view) ← view.u32
      let (outputs, _) ← scratch arena args.view.length
      let (outputs, used, view) ← writeOutputs outputCount.toNat view outputs 0
      if !view.isFinished then none
      else
        finish sha256 committed header sequences (outputs.take used) inputIndex

end Predicate

end SapioTee
