import Mathlib.Algebra.Ring.Nat
import Mathlib.Data.List.Basic

/-!
# Byte strings: fixed-width little-endian words and parsers off the front

Two small things every wire format rests on. A natural below `256 ^ w` is
the same thing as its `w` little-endian bytes, and a parser is a partial
function that reads a value off the front of a byte string and hands back
what it did not touch.

`Reads p bs x` is the law the round trips are made of: whatever follows,
`p` reads exactly `bs` and answers `x`. It composes along `bind`, so a
format is inverted field by field in the order it is written, and a counted
list is inverted by induction on the list.
-/

namespace SapioTee.Lib

abbrev Bytes := List UInt8

/-- The bytes of an ASCII literal. -/
def ascii (s : String) : Bytes := s.toList.map fun c => UInt8.ofNat c.toNat

/-- A string is its UTF-8 bytes. -/
def utf8 (s : String) : Bytes := s.toByteArray.data.toList

/-- No two different messages of the list have one hash. -/
def CollisionFree {α : Type} (hash : Bytes → α) (messages : List Bytes) :
    Prop :=
  ∀ m ∈ messages, ∀ m' ∈ messages, hash m = hash m' → m = m'

/-- `strip_prefix`: what follows, when the prefix is there. -/
def stripLead (lead bs : Bytes) : Option Bytes :=
  if lead.isPrefixOf bs then some (bs.drop lead.length) else none

theorem stripLead_append (lead rest : Bytes) :
    stripLead lead (lead ++ rest) = some rest := by
  rw [stripLead, if_pos (List.isPrefixOf_iff_prefix.mpr
    (List.prefix_append lead rest)), List.drop_left]

theorem stripLead_none {lead bytes : Bytes} (h : ¬ lead <+: bytes) :
    stripLead lead bytes = none := by
  rw [stripLead, if_neg fun hlead => h (List.isPrefixOf_iff_prefix.mp hlead)]

theorem stripLead_some {lead bytes rest : Bytes}
    (h : stripLead lead bytes = some rest) : bytes = lead ++ rest := by
  unfold stripLead at h
  split at h
  next hlead =>
    injection h with h
    obtain ⟨tail, rfl⟩ := List.isPrefixOf_iff_prefix.mp hlead
    rw [List.drop_left] at h
    rw [h]
  next => cases h

/-- The `w` little-endian bytes of `n`; what does not fit is dropped, as a
narrowing cast drops it. -/
def leBytes : Nat → Nat → Bytes
  | 0, _ => []
  | w + 1, n => UInt8.ofNat (n % 256) :: leBytes w (n / 256)

/-- The natural a little-endian byte string spells. -/
def leNat : Bytes → Nat
  | [] => 0
  | b :: bs => b.toNat + 256 * leNat bs

@[simp] theorem length_leBytes (w n : Nat) : (leBytes w n).length = w := by
  induction w generalizing n with
  | zero => rfl
  | succ w ih => rw [leBytes, List.length_cons, ih]

theorem leNat_leBytes {w n : Nat} (h : n < 256 ^ w) :
    leNat (leBytes w n) = n := by
  induction w generalizing n with
  | zero =>
      rw [Nat.pow_zero] at h
      rw [leBytes, leNat]
      omega
  | succ w ih =>
      have hdiv : n / 256 < 256 ^ w := by
        rw [Nat.pow_succ] at h
        omega
      have hbyte : (UInt8.ofNat (n % 256)).toNat = n % 256 := by
        rw [UInt8.toNat_ofNat']
        omega
      rw [leBytes, leNat, ih hdiv, hbyte]
      omega

theorem leNat_lt (bs : Bytes) : leNat bs < 256 ^ bs.length := by
  induction bs with
  | nil => exact Nat.zero_lt_one
  | cons b bs ih =>
      have hbyte : b.toNat < 256 := b.toNat_lt
      rw [leNat, List.length_cons, Nat.pow_succ]
      omega

theorem leBytes_leNat (bs : Bytes) : leBytes bs.length (leNat bs) = bs := by
  induction bs with
  | nil => rfl
  | cons b bs ih =>
      have hbyte : b.toNat < 256 := b.toNat_lt
      have hhead : (b.toNat + 256 * leNat bs) % 256 = b.toNat := by omega
      have htail : (b.toNat + 256 * leNat bs) / 256 = leNat bs := by omega
      rw [List.length_cons, leNat, leBytes, hhead, htail, ih,
        UInt8.ofNat_toNat]

/-- A parser: a value off the front, and the rest. -/
abbrev Parser (α : Type) := StateT Bytes Option α

namespace Parser

/-- Exactly `n` bytes. -/
def take (n : Nat) : Parser Bytes := fun s =>
  if n ≤ s.length then some (s.take n, s.drop n) else none

/-- Exactly `n` bytes, as a vector of that length. -/
def bytes (n : Nat) : Parser (Vector UInt8 n) := fun s =>
  if h : n ≤ s.length then
    some (⟨(s.take n).toArray, by simp [h]⟩, s.drop n)
  else none

/-- A `w`-byte little-endian word. -/
def word (w : Nat) : Parser Nat := do
  let bs ← take w
  pure (leNat bs)

/-- `n` items in a row. -/
def times {α : Type} (p : Parser α) : Nat → Parser (List α)
  | 0 => pure []
  | n + 1 => do
      let x ← p
      let xs ← times p n
      pure (x :: xs)

end Parser

/-- `p` reads exactly `bs` and answers `x`, whatever follows. -/
def Reads {α : Type} (p : Parser α) (bs : Bytes) (x : α) : Prop :=
  ∀ rest, p.run (bs ++ rest) = some (x, rest)

section Rules

variable {α β : Type} {p : Parser α} {f : α → Parser β} {bs cs : Bytes}
  {x : α} {y : β}

theorem Reads.pure (x : α) : Reads (Pure.pure x : Parser α) [] x :=
  fun _ => rfl

theorem Reads.bind (hp : Reads p bs x) (hf : Reads (f x) cs y) :
    Reads (p >>= f) (bs ++ cs) y := by
  intro rest
  rw [StateT.run_bind, List.append_assoc, hp]
  exact hf rest

/-- The rule for a last field: nothing is read after it. -/
theorem Reads.bind_pure (hp : Reads p bs x) (g : α → β) :
    Reads (p >>= fun a => Pure.pure (g a)) bs (g x) := by
  intro rest
  rw [StateT.run_bind, hp]
  rfl

theorem reads_take (bs : Bytes) : Reads (Parser.take bs.length) bs bs := by
  intro rest
  show Parser.take bs.length (bs ++ rest) = some (bs, rest)
  rw [Parser.take, if_pos (by rw [List.length_append]; omega),
    List.take_left, List.drop_left]

theorem reads_take_of {n : Nat} (h : bs.length = n) :
    Reads (Parser.take n) bs bs := by
  subst h
  exact reads_take bs

theorem reads_bytes {n : Nat} (v : Vector UInt8 n) :
    Reads (Parser.bytes n) v.toList v := by
  intro rest
  show Parser.bytes n (v.toList ++ rest) = some (v, rest)
  have hlen : n ≤ (v.toList ++ rest).length := by
    rw [List.length_append, Vector.length_toList]
    omega
  have htake : (v.toList ++ rest).take n = v.toList :=
    List.take_left' (Vector.length_toList)
  have hdrop : (v.toList ++ rest).drop n = rest :=
    List.drop_left' (Vector.length_toList)
  rw [Parser.bytes, dif_pos hlen]
  simp only [htake, hdrop]
  rfl

theorem reads_word {w n : Nat} (h : n < 256 ^ w) :
    Reads (Parser.word w) (leBytes w n) n := by
  have hread := (reads_take_of (length_leBytes w n)).bind_pure leNat
  rw [leNat_leBytes h] at hread
  exact hread

/-- A counted list is read back item by item. -/
theorem reads_times {item : Parser β} {enc : α → Bytes} {dec : α → β} :
    ∀ {xs : List α}, (∀ x ∈ xs, Reads item (enc x) (dec x)) →
      Reads (item.times xs.length) (xs.flatMap enc) (xs.map dec) := by
  intro xs
  induction xs with
  | nil => intro _; exact Reads.pure []
  | cons x xs ih =>
      intro h
      have hx := h x (by simp)
      have hxs := ih fun y hy => h y (by simp [hy])
      exact hx.bind (hxs.bind_pure (List.cons (dec x)))

/-- What is read back whole leaves nothing over. -/
theorem Reads.run_eq (hp : Reads p bs x) : p.run bs = some (x, []) := by
  have h := hp []
  rw [List.append_nil] at h
  exact h

end Rules

/-- Bytes that are read back name one value. -/
theorem Reads.unique {α : Type} {p : Parser α} {bs : Bytes} {x y : α}
    (hx : Reads p bs x) (hy : Reads p bs y) : x = y := by
  have hsame := hx.run_eq.symm.trans hy.run_eq
  injection hsame with hsame
  injection hsame

/-- Items that say where they end are told apart in a row of them, even when
their number is not given. -/
theorem flatMap_inj {α β : Type} {item : Parser β} {enc : α → Bytes}
    {dec : α → β} (hne : ∀ x, enc x ≠ []) {xs ys : List α}
    (hxs : ∀ x ∈ xs, Reads item (enc x) (dec x))
    (hys : ∀ y ∈ ys, Reads item (enc y) (dec y))
    (h : xs.flatMap enc = ys.flatMap enc) : xs.map dec = ys.map dec := by
  induction xs generalizing ys with
  | nil =>
      cases ys with
      | nil => rfl
      | cons y ys =>
          rw [List.flatMap_nil, List.flatMap_cons] at h
          exact absurd (List.append_eq_nil_iff.mp h.symm).1 (hne y)
  | cons x xs ih =>
      cases ys with
      | nil =>
          rw [List.flatMap_nil, List.flatMap_cons] at h
          exact absurd (List.append_eq_nil_iff.mp h).1 (hne x)
      | cons y ys =>
          rw [List.flatMap_cons, List.flatMap_cons] at h
          have hx := hxs x List.mem_cons_self (xs.flatMap enc)
          have hy := hys y List.mem_cons_self (ys.flatMap enc)
          rw [h, hy] at hx
          injection hx with hx
          injection hx with hhead hrest
          rw [List.map_cons, List.map_cons, hhead, ih
            (fun z hz => hxs z (List.mem_cons_of_mem x hz))
            (fun z hz => hys z (List.mem_cons_of_mem y hz)) hrest.symm]

end SapioTee.Lib
