import SapioTee.Model.Guest

/-!
# Reading and allocating in a guest

`Reader.On r rest` says where a reader stands: what it has not read is
`rest`. Each read of a guest is a step along it, so a parse is followed
field by field through the bytes the host wrote. An allocation that fits
the arena is the next range of it and is not the null address.
-/

namespace SapioTee

open Lib

namespace Guest

/-! ## Where a reader stands -/

/-- The reader is inside a slice of the 32-bit memory, and `rest` is what it
has not read. -/
def Reader.On (r : Reader) (rest : Bytes) : Prop :=
  ∃ pre, r.bytes = pre ++ rest ∧ r.offset = pre.length ∧
    r.bytes.length < 2 ^ 32

theorem Reader.on_new {bytes rest : Bytes} (h : bytes.length < 2 ^ 32)
    (heq : bytes = rest) : (Reader.new bytes).On rest := ⟨[], heq, rfl, h⟩

theorem Reader.On.take {r : Reader} {chunk rest : Bytes}
    (h : r.On (chunk ++ rest)) {n : Nat} (hn : n = chunk.length) :
    ∃ r', r.take n = some (chunk, r') ∧ r'.On rest := by
  obtain ⟨pre, hbytes, hoffset, hlen⟩ := h
  subst hn
  have htotal : r.bytes.length = pre.length + chunk.length + rest.length := by
    rw [hbytes, List.length_append, List.length_append]
    omega
  have hadd : checkedAdd32 r.offset chunk.length
      = some (pre.length + chunk.length) := by
    rw [checkedAdd32, hoffset, if_pos (by omega)]
  refine ⟨⟨r.bytes, pre.length + chunk.length⟩, ?_, pre ++ chunk, ?_, ?_, hlen⟩
  · unfold Reader.take
    rw [hadd]
    simp only []
    rw [if_pos (by omega), hbytes, hoffset, ← List.append_assoc,
      List.take_left' (by rw [List.length_append]), List.drop_left]
  · rw [List.append_assoc]
    exact hbytes
  · rw [List.length_append]

theorem Reader.u32FromLe_u32Le (x : UInt32) :
    Reader.u32FromLe (u32Le x) = x := by
  have hword : leNat (u32Le x) = x.toNat := leNat_leBytes x.toNat_lt
  rw [Reader.u32FromLe, hword, UInt32.ofNat_toNat]

theorem Reader.On.u32 {r : Reader} {x : UInt32} {rest : Bytes}
    (h : r.On (u32Le x ++ rest)) : ∃ r', r.u32 = some (x, r') ∧ r'.On rest := by
  obtain ⟨r', htake, hon⟩ := h.take (length_u32Le x).symm
  refine ⟨r', ?_, hon⟩
  unfold Reader.u32
  rw [htake]
  show some (Reader.u32FromLe (u32Le x), r') = some (x, r')
  rw [Reader.u32FromLe_u32Le]

theorem Reader.On.isFinished {r : Reader} (h : r.On []) :
    r.isFinished = true := by
  obtain ⟨pre, hbytes, hoffset, -⟩ := h
  rw [Reader.isFinished, hbytes, hoffset, List.append_nil, beq_self_eq_true]

/-! ## The allocator -/

/-- An allocation that fits is the next range of the arena. -/
theorem Arena.sapioAllocV1_eq {arena : Arena} {n : Nat}
    (h : arena.used + n ≤ inputCapacity) :
    arena.sapioAllocV1 (UInt32.ofNat n)
      = (UInt32.ofNat (arena.start + arena.used),
        { arena with used := arena.used + n, used_le := h }) := by
  have hcap : inputCapacity = 1245184 := rfl
  have hsize : (UInt32.ofNat n).toNat = n :=
    UInt32.toNat_ofNat_of_lt' (show n < 2 ^ 32 by omega)
  have hadd : checkedAdd32 arena.used (UInt32.ofNat n).toNat
      = some (arena.used + n) := by
    rw [checkedAdd32, hsize, if_pos (by omega)]
  unfold Arena.sapioAllocV1
  rw [hadd]
  simp only []
  rw [dif_pos h]

theorem Arena.address_ne_zero {arena : Arena} {n : Nat} (hpos : 0 < n)
    (h : arena.used + n ≤ inputCapacity) :
    UInt32.ofNat (arena.start + arena.used) ≠ 0 := by
  have hinside := arena.inside
  have hstart := arena.start_pos
  have haddr : (UInt32.ofNat (arena.start + arena.used)).toNat
      = arena.start + arena.used :=
    UInt32.toNat_ofNat_of_lt' (show arena.start + arena.used < 2 ^ 32 by omega)
  intro heq
  rw [heq] at haddr
  have hzero : (0 : UInt32).toNat = 0 := rfl
  omega

end Guest

end SapioTee
