import Mathlib.Data.List.Basic

/-!
# Writing into a flat memory

A memory is a list of cells. `overwrite` replaces the cells from an offset
on; several writes that lie inside the memory and do not meet leave each its
own data in place and every other cell as it was, in whatever order they are
made.
-/

namespace SapioTee.Lib

variable {α : Type}

/-- The address is one of the `length` cells from `offset`. -/
def Within (offset length a : Nat) : Prop := offset ≤ a ∧ a < offset + length

/-- Two stretches of addresses have none in common. -/
def Apart (x y : Nat × List α) : Prop :=
  ∀ a, ¬ (Within x.1 x.2.length a ∧ Within y.1 y.2.length a)

def overwrite (memory : List α) (offset : Nat) (data : List α) : List α :=
  memory.take offset ++ data ++ memory.drop (offset + data.length)

def overwriteAll : List (Nat × List α) → List α → List α
  | [], memory => memory
  | (offset, data) :: writes, memory =>
      overwriteAll writes (overwrite memory offset data)

section One

variable {memory data : List α} {offset : Nat}

theorem length_overwrite (h : offset + data.length ≤ memory.length) :
    (overwrite memory offset data).length = memory.length := by
  rw [overwrite, List.length_append, List.length_append, List.length_drop,
    List.length_take_of_le (by omega)]
  omega

theorem getElem?_overwrite_within (h : offset + data.length ≤ memory.length)
    {a : Nat} (ha : Within offset data.length a) :
    (overwrite memory offset data)[a]? = data[a - offset]? := by
  obtain ⟨hlow, hhigh⟩ := ha
  have hlen : (memory.take offset).length = offset :=
    List.length_take_of_le (by omega)
  rw [overwrite, List.append_assoc, List.getElem?_append_right (by omega),
    hlen, List.getElem?_append_left (by omega)]

theorem getElem?_overwrite_outside (h : offset + data.length ≤ memory.length)
    {a : Nat} (ha : ¬ Within offset data.length a) :
    (overwrite memory offset data)[a]? = memory[a]? := by
  have hlen : (memory.take offset).length = offset :=
    List.length_take_of_le (by omega)
  rw [overwrite, List.append_assoc]
  by_cases hlow : a < offset
  · rw [List.getElem?_append_left (by omega), List.getElem?_take_of_lt hlow]
  · have hhigh : offset + data.length ≤ a := by
      by_contra hlt
      exact ha ⟨by omega, by omega⟩
    rw [List.getElem?_append_right (by omega), hlen,
      List.getElem?_append_right (by omega), List.getElem?_drop]
    congr 1
    omega

end One

/-- Writes that fit and do not meet. -/
structure Separate (writes : List (Nat × List α)) (size : Nat) : Prop where
  fits : ∀ w ∈ writes, w.1 + w.2.length ≤ size
  apart : writes.Pairwise Apart

section All

variable {writes : List (Nat × List α)} {memory : List α}

theorem length_overwriteAll (h : ∀ w ∈ writes, w.1 + w.2.length ≤ memory.length) :
    (overwriteAll writes memory).length = memory.length := by
  induction writes generalizing memory with
  | nil => rfl
  | cons w writes ih =>
      have hlen := length_overwrite (h w List.mem_cons_self)
      rw [overwriteAll, ih, hlen]
      intro v hv
      rw [hlen]
      exact h v (List.mem_cons_of_mem w hv)

theorem getElem?_overwriteAll_outside
    (h : ∀ w ∈ writes, w.1 + w.2.length ≤ memory.length) {a : Nat}
    (ha : ∀ w ∈ writes, ¬ Within w.1 w.2.length a) :
    (overwriteAll writes memory)[a]? = memory[a]? := by
  induction writes generalizing memory with
  | nil => rfl
  | cons w writes ih =>
      have hfits := h w List.mem_cons_self
      rw [overwriteAll, ih, getElem?_overwrite_outside hfits
        (ha w List.mem_cons_self)]
      · intro v hv
        rw [length_overwrite hfits]
        exact h v (List.mem_cons_of_mem w hv)
      · intro v hv
        exact ha v (List.mem_cons_of_mem w hv)

theorem getElem?_overwriteAll_within (h : Separate writes memory.length)
    {w : Nat × List α} (hw : w ∈ writes) {a : Nat}
    (ha : Within w.1 w.2.length a) :
    (overwriteAll writes memory)[a]? = w.2[a - w.1]? := by
  induction writes generalizing memory with
  | nil => cases hw
  | cons v writes ih =>
      obtain ⟨hmeet, hrest⟩ := List.pairwise_cons.mp h.apart
      have hv := h.fits v List.mem_cons_self
      have hfits : ∀ x ∈ writes, x.1 + x.2.length
          ≤ (overwrite memory v.1 v.2).length := by
        intro x hx
        rw [length_overwrite hv]
        exact h.fits x (List.mem_cons_of_mem v hx)
      rcases List.mem_cons.mp hw with rfl | hw
      · rw [overwriteAll, getElem?_overwriteAll_outside hfits
          (fun x hx hin => hmeet x hx a ⟨ha, hin⟩),
          getElem?_overwrite_within hv ha]
      · exact ih ⟨hfits, hrest⟩ hw

/-- So each write's data is read back whole. -/
theorem read_overwriteAll (h : Separate writes memory.length)
    {w : Nat × List α} (hw : w ∈ writes) :
    ((overwriteAll writes memory).drop w.1).take w.2.length = w.2 := by
  refine List.ext_getElem? fun i => ?_
  rw [List.getElem?_take]
  split
  · next hi =>
      rw [List.getElem?_drop, getElem?_overwriteAll_within h hw
        ⟨by omega, by omega⟩, Nat.add_sub_cancel_left]
  · next hi => rw [List.getElem?_eq_none (by omega)]

end All

end SapioTee.Lib
