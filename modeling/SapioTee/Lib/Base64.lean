import SapioTee.Lib.Bytes

/-!
# Base64

Three bytes are four characters of six bits each; a last group of one or two
bytes is filled up with zero bits and marked by `=`. The reader is the strict
one: every character is of the alphabet, the last group is closed by its
padding, and nothing follows it. It does not look at the filling, so it reads
more texts than are written; what is written it reads back.
-/

namespace SapioTee.Lib

def base64Alphabet : List Char :=
  "ABCDEFGHIJKLMNOPQRSTUVWXYZabcdefghijklmnopqrstuvwxyz0123456789+/".toList

def base64Char (n : Nat) : Char := base64Alphabet.getD n 'A'

def base64Chars : Bytes → List Char
  | [] => []
  | [a] =>
      [base64Char (a.toNat / 4), base64Char (a.toNat % 4 * 16), '=', '=']
  | [a, b] =>
      [base64Char (a.toNat / 4),
        base64Char (a.toNat % 4 * 16 + b.toNat / 16),
        base64Char (b.toNat % 16 * 4), '=']
  | a :: b :: c :: rest =>
      base64Char (a.toNat / 4) ::
        base64Char (a.toNat % 4 * 16 + b.toNat / 16) ::
        base64Char (b.toNat % 16 * 4 + c.toNat / 64) ::
        base64Char (c.toNat % 64) :: base64Chars rest

/-- The six bits of a character. -/
def base64Value (c : Char) : Option Nat := base64Alphabet.idxOf? c

def unbase64Chars : List Char → Option Bytes
  | [] => some []
  | x :: y :: z :: w :: rest => do
      let i ← base64Value x
      let j ← base64Value y
      let a := UInt8.ofNat (i * 4 + j / 16)
      if rest.isEmpty && z == '=' && w == '=' then
        pure [a]
      else
        let k ← base64Value z
        let b := UInt8.ofNat (j % 16 * 16 + k / 4)
        if rest.isEmpty && w == '=' then
          pure [a, b]
        else
          let l ← base64Value w
          let bs ← unbase64Chars rest
          pure (a :: b :: UInt8.ofNat (k % 4 * 64 + l) :: bs)
  | _ => none

theorem base64Value_char {n : Nat} (h : n < 64) :
    base64Value (base64Char n) = some n := by
  have hall : ∀ n < 64, base64Value (base64Char n) = some n := by
    decide +kernel
  exact hall n h

theorem base64Char_ne_pad {n : Nat} (h : n < 64) :
    (base64Char n == '=') = false := by
  have hall : ∀ n < 64, (base64Char n == '=') = false := by
    decide +kernel
  exact hall n h

theorem unbase64Chars_base64Chars (bs : Bytes) :
    unbase64Chars (base64Chars bs) = some bs := by
  have hvalue : ∀ {n}, n < 64 → base64Value (base64Char n) = some n :=
    fun h => base64Value_char h
  have hbyte : ∀ {n} {a : UInt8}, n = a.toNat → UInt8.ofNat n = a := by
    intro n a h
    rw [h, UInt8.ofNat_toNat]
  induction bs using base64Chars.induct with
  | case1 => rfl
  | case2 a =>
      have ha := a.toNat_lt
      have hx := hvalue (show a.toNat / 4 < 64 by omega)
      have hy := hvalue (show a.toNat % 4 * 16 < 64 by omega)
      have hfirst := hbyte (a := a)
        (show a.toNat / 4 * 4 + a.toNat % 4 * 16 / 16 = a.toNat by omega)
      simp only [base64Chars, unbase64Chars, hx, hy, hfirst,
        Option.bind_eq_bind, Option.bind_some, List.isEmpty_nil,
        beq_self_eq_true, Bool.and_self, if_true]
      rfl
  | case3 a b =>
      have ha := a.toNat_lt
      have hb := b.toNat_lt
      have hx := hvalue (show a.toNat / 4 < 64 by omega)
      have hy := hvalue
        (show a.toNat % 4 * 16 + b.toNat / 16 < 64 by omega)
      have hz := hvalue (show b.toNat % 16 * 4 < 64 by omega)
      have hpad := base64Char_ne_pad (show b.toNat % 16 * 4 < 64 by omega)
      have hfirst := hbyte (a := a) (show a.toNat / 4 * 4
        + (a.toNat % 4 * 16 + b.toNat / 16) / 16 = a.toNat by omega)
      have hsecond := hbyte (a := b)
        (show (a.toNat % 4 * 16 + b.toNat / 16) % 16 * 16
          + b.toNat % 16 * 4 / 4 = b.toNat by omega)
      simp only [base64Chars, unbase64Chars, hx, hy, hz, hpad, hfirst, hsecond,
        Option.bind_eq_bind, Option.bind_some, List.isEmpty_nil,
        beq_self_eq_true, Bool.and_self, Bool.and_false, Bool.false_and,
        Bool.false_eq_true, if_false, if_true]
      rfl
  | case4 a b c rest ih =>
      have ha := a.toNat_lt
      have hb := b.toNat_lt
      have hc := c.toNat_lt
      have hx := hvalue (show a.toNat / 4 < 64 by omega)
      have hy := hvalue
        (show a.toNat % 4 * 16 + b.toNat / 16 < 64 by omega)
      have hz := hvalue
        (show b.toNat % 16 * 4 + c.toNat / 64 < 64 by omega)
      have hw := hvalue (show c.toNat % 64 < 64 by omega)
      have hpad := base64Char_ne_pad (show c.toNat % 64 < 64 by omega)
      have hfirst := hbyte (a := a) (show a.toNat / 4 * 4
        + (a.toNat % 4 * 16 + b.toNat / 16) / 16 = a.toNat by omega)
      have hsecond := hbyte (a := b)
        (show (a.toNat % 4 * 16 + b.toNat / 16) % 16 * 16
          + (b.toNat % 16 * 4 + c.toNat / 64) / 4 = b.toNat by omega)
      have hthird := hbyte (a := c)
        (show (b.toNat % 16 * 4 + c.toNat / 64) % 4 * 64 + c.toNat % 64
          = c.toNat by omega)
      simp only [base64Chars, unbase64Chars, hx, hy, hz, hw, hpad, hfirst,
        hsecond, hthird, ih, Option.bind_eq_bind, Option.bind_some,
        Bool.and_false, Bool.false_eq_true, if_false]
      rfl

end SapioTee.Lib
