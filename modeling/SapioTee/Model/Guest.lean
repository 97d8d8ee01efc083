import SapioTee.Model.Transaction

/-!
# The guest side of the example predicates (`examples/vault/guest.rs`)

What the example predicates share: a bump allocator over one static array
and a bounds-checked reader. A guest is a 32-bit WASM program built without
overflow checks, so `usize` has 32 bits here: `checked_add` fails at 2^32 and
a plain `+` or `*` wraps.

Each evaluation owns a fresh instance, so the arena starts empty. Where the
linker puts the array is not in the source; an `Arena` carries what any
placement satisfies, that the array lies inside the 32-bit address space and
not at the null address.

The crypto import is the runtime's. It is given the bytes of a slice the
guest owns, writes one SHA-256 digest and answers zero; SHA-256 itself is a
parameter.
-/

namespace SapioTee

open Lib

namespace Guest

def maxView : Nat := 1048576
def maxArgument : Nat := 65536
def inputCapacity : Nat := maxView + 3 * maxArgument

/-- `usize::checked_add` in the guest. -/
def checkedAdd32 (a b : Nat) : Option Nat :=
  if a + b < 2 ^ 32 then some (a + b) else none

/-- A plain `+` and a plain `*` on the guest's `usize`. -/
def wrapAdd (a b : Nat) : Nat := (a + b) % 2 ^ 32

def wrapMul (a b : Nat) : Nat := (a * b) % 2 ^ 32

/-! ## The allocator -/

/-- `INPUT` and `INPUT_USED`. -/
structure Arena where
  start : Nat
  used : Nat
  start_pos : 0 < start
  inside : start + inputCapacity ≤ 2 ^ 32
  used_le : used ≤ inputCapacity

/-- The arena of a fresh instance. -/
def Arena.fresh (start : Nat) (hpos : 0 < start)
    (hinside : start + inputCapacity ≤ 2 ^ 32) : Arena :=
  ⟨start, 0, hpos, hinside, Nat.zero_le _⟩

/-- `sapio_alloc_v1`: the address of the next free range, or zero. -/
def Arena.sapioAllocV1 (arena : Arena) (length : UInt32) : UInt32 × Arena :=
  match checkedAdd32 arena.used length.toNat with
  | none => (0, arena)
  | some stop =>
      if h : stop ≤ inputCapacity then
        (UInt32.ofNat (arena.start + arena.used),
          { arena with used := stop, used_le := h })
      else (0, arena)

/-! ## The reader -/

structure Arguments where
  program : Bytes
  parameters : Bytes
  view : Bytes
  witness : Bytes

structure Reader where
  bytes : Bytes
  offset : Nat

namespace Reader

def new (bytes : Bytes) : Reader := ⟨bytes, 0⟩

def take (self : Reader) (length : Nat) : Option (Bytes × Reader) :=
  match checkedAdd32 self.offset length with
  | none => none
  | some stop =>
      if stop ≤ self.bytes.length then
        some ((self.bytes.take stop).drop self.offset,
          { self with offset := stop })
      else none

/-- `u32::from_le_bytes` on a four-byte slice. -/
def u32FromLe (bytes : Bytes) : UInt32 := UInt32.ofNat (leNat bytes)

def u32 (self : Reader) : Option (UInt32 × Reader) := do
  let (bytes, self) ← self.take 4
  pure (u32FromLe bytes, self)

def isFinished (self : Reader) : Bool := self.offset == self.bytes.length

end Reader

/-- `hash`: the digest, when there is room for exactly one. -/
def hash (sha256 : Bytes → Hash) (bytes : Bytes) (room : Nat) : Option Hash :=
  if room ≠ 32 then none else some (sha256 bytes)

/-! ## The entry point -/

/-- `input_slice`: the bytes behind a pointer, if they are inside what has
been allocated. -/
def inputSlice (arena : Arena) (memory : Bytes) (pointer length : UInt32) :
    Option Bytes :=
  if length = 0 then some []
  else if pointer.toNat < arena.start then none
  else
    match checkedAdd32 (pointer.toNat - arena.start) length.toNat with
    | none => none
    | some stop =>
        if stop > arena.used then none
        else some ((memory.drop pointer.toNat).take length.toNat)

/-- The four slices, in the order they are taken. -/
def arguments (arena : Arena) (memory : Bytes) (pointers : Vector UInt32 8) :
    Option Arguments := do
  let program ← inputSlice arena memory (pointers.get 0) (pointers.get 1)
  let parameters ← inputSlice arena memory (pointers.get 2) (pointers.get 3)
  let view ← inputSlice arena memory (pointers.get 4) (pointers.get 5)
  let witness ← inputSlice arena memory (pointers.get 6) (pointers.get 7)
  pure ⟨program, parameters, view, witness⟩

/-- `evaluate`: the lengths, the slices, and the predicate's answer as a
number. A predicate may allocate, so it is given the arena. -/
def evaluate (evaluator : Arena → Arguments → Option Bool) (arena : Arena)
    (memory : Bytes) (pointers : Vector UInt32 8) : Int32 :=
  if (pointers.get 1).toNat > maxArgument ∨
      (pointers.get 3).toNat > maxArgument ∨
      (pointers.get 7).toNat > maxArgument ∨
      (pointers.get 5).toNat > maxView then -1
  else
    match arguments arena memory pointers with
    | none => -1
    | some args =>
        match evaluator arena args with
        | some true => 1
        | some false => 0
        | none => -1

end Guest

end SapioTee
