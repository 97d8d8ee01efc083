import SapioTee.Lib.Bytes

/-!
# Transactions, PSBTs and the signing input

The part of the Bitcoin data model the signer reads. Widths are the
source's own: a signed version, 32-bit lock time, sequence and output index,
64-bit amounts. Scripts are byte strings of any length.

A `Psbt` carries one map per transaction input, as its format reads them and
as `Psbt::from_unsigned_tx` builds them, and the structure says so: a PSBT
whose two input lists disagree cannot be written down here.

What only outside code reads (the remaining key-value pairs of a map, the
script leaf, participants and tweak that `sighash` hashes) is kept as bytes,
so that a function of the whole value is still a function of the whole
value.
-/

namespace SapioTee

open Lib

/-- A 32-byte hash, in the order its bytes are hashed and encoded. -/
abbrev Hash := Vector UInt8 32

abbrev Script := Bytes

structure OutPoint where
  txid : Hash
  vout : UInt32
  deriving DecidableEq

structure TxIn where
  previousOutput : OutPoint
  sequence : UInt32
  deriving DecidableEq

structure TxOut where
  value : UInt64
  scriptPubkey : Script
  deriving DecidableEq

structure Transaction where
  version : Int32
  lockTime : UInt32
  input : List TxIn
  output : List TxOut
  deriving DecidableEq

structure PsbtInput where
  witnessUtxo : Option TxOut
  tapInternalKey : Option Hash
  finalScriptSig : Option Script
  finalScriptWitness : Option (List Bytes)
  /-- The map's other pairs, read by `validate_psbt` and the annex accessor. -/
  other : List (Bytes × Bytes)
  deriving DecidableEq

structure Psbt where
  unsignedTx : Transaction
  inputs : List PsbtInput
  inputs_length : inputs.length = unsignedTx.input.length

structure SigningInput where
  psbt : Psbt
  inputIndex : Nat
  /-- Script leaf, participants and tweak: `sighash` reads them, nothing in
  this repository does. -/
  context : Bytes

/-- `u32::to_le_bytes`. -/
def u32Le (x : UInt32) : Bytes := leBytes 4 x.toNat

/-- `u64::to_le_bytes`. -/
def u64Le (x : UInt64) : Bytes := leBytes 8 x.toNat

/-- `i32::to_le_bytes`: the two's complement bits. -/
def i32Le (x : Int32) : Bytes := leBytes 4 x.toUInt32.toNat

/-- `OutPoint::consensus_encode`. -/
def OutPoint.encode (o : OutPoint) : Bytes := o.txid.toList ++ u32Le o.vout

/-- `usize::checked_add` on the 64-bit host. -/
def checkedAdd (a b : Nat) : Option Nat :=
  if a + b < 2 ^ 64 then some (a + b) else none

/-- `u32::try_from` on a `usize`. -/
def tryU32 (n : Nat) : Option UInt32 :=
  if n < 2 ^ 32 then some (UInt32.ofNat n) else none

/-- `as u32` on a `usize`: the low 32 bits, no check. -/
def asU32 (n : Nat) : UInt32 := UInt32.ofNat n

@[simp] theorem length_u32Le (x : UInt32) : (u32Le x).length = 4 :=
  length_leBytes 4 _

@[simp] theorem length_u64Le (x : UInt64) : (u64Le x).length = 8 :=
  length_leBytes 8 _

@[simp] theorem length_i32Le (x : Int32) : (i32Le x).length = 4 :=
  length_leBytes 4 _

@[simp] theorem OutPoint.length_encode (o : OutPoint) :
    o.encode.length = 36 := by
  rw [OutPoint.encode, List.length_append, Vector.length_toList, length_u32Le]

theorem tryU32_eq_some {n : Nat} {x : UInt32} (h : tryU32 n = some x) :
    n < 2 ^ 32 ∧ x.toNat = n := by
  unfold tryU32 at h
  split at h
  · next hlt =>
      injection h with h
      subst h
      exact ⟨hlt, UInt32.toNat_ofNat_of_lt' hlt⟩
  · cases h

theorem asU32_toNat {n : Nat} (h : n < 2 ^ 32) : (asU32 n).toNat = n :=
  UInt32.toNat_ofNat_of_lt' h

end SapioTee
