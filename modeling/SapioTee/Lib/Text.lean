import Mathlib.Data.Nat.Digits.Lemmas
import Mathlib.Data.Nat.Size
import SapioTee.Lib.Bytes

/-!
# Bytes as text: ASCII, hexadecimal and Base58

The UTF-8 bytes of a text determine it, and where every byte is below `128`
they are its characters one by one. Hexadecimal is written in lowercase and
read in either case, so only the lowercase texts are read and written back
to themselves. Base58 writes the number a byte string spells, most
significant digit first, after one `1` for each zero byte in front; a reader
that takes the shortest byte string of the number and puts the zero bytes
back has the string it came from.
-/

namespace SapioTee.Lib

/-! ## ASCII -/

theorem utf8_append (s t : String) : utf8 (s ++ t) = utf8 s ++ utf8 t := by
  rw [utf8, String.toByteArray_append, ByteArray.data_append,
    Array.toList_append]
  rfl

theorem utf8_inj {s t : String} (h : utf8 s = utf8 t) : s = t := by
  apply String.toByteArray_inj.mp
  apply ByteArray.ext
  exact Array.toList_inj.mp h

theorem utf8EncodeChar_of_lt {c : Char} (h : c.toNat < 128) :
    String.utf8EncodeChar c = [UInt8.ofNat c.toNat] := by
  have hval : c.val.toNat ≤ 127 := by
    have : c.toNat = c.val.toNat := rfl
    omega
  simp only [String.utf8EncodeChar, hval, if_true]
  rfl

theorem utf8_eq_flatMap (s : String) :
    utf8 s = s.toList.flatMap String.utf8EncodeChar := by
  conv_lhs => rw [← @String.ofList_toList s]
  simp only [utf8, String.toByteArray_ofList, List.utf8Encode,
    List.toList_data_toByteArray]

/-- A character is one to four bytes. -/
theorem length_utf8 (s : String) : s.toList.length ≤ (utf8 s).length ∧
    (utf8 s).length ≤ 4 * s.toList.length := by
  rw [utf8_eq_flatMap]
  generalize s.toList = cs
  induction cs with
  | nil => exact ⟨Nat.le_refl 0, Nat.le_refl 0⟩
  | cons c cs ih =>
      have hlow := c.utf8Size_pos
      have hhigh := c.utf8Size_le_four
      rw [List.flatMap_cons, List.length_append,
        String.length_utf8EncodeChar, List.length_cons]
      omega

/-- Text in ASCII is one byte a character. -/
theorem utf8_eq_ascii {s : String} (h : ∀ c ∈ s.toList, c.toNat < 128) :
    utf8 s = ascii s := by
  rw [utf8_eq_flatMap, ascii]
  generalize s.toList = cs at h
  induction cs with
  | nil => rfl
  | cons c cs ih =>
      rw [List.flatMap_cons, utf8EncodeChar_of_lt (h c (by simp)),
        ih fun d hd => h d (by simp [hd]), List.map_cons]
      rfl

/-- The text of bytes below `128`. -/
def ofAscii (bs : Bytes) : String :=
  String.ofList (bs.map fun b => Char.ofNat b.toNat)

theorem toNat_ofNat_of_lt {n : Nat} (h : n < 128) :
    (Char.ofNat n).toNat = n := by
  have hvalid : n.isValidChar := .inl (by omega)
  rw [Char.ofNat, dif_pos hvalid]
  rfl

theorem utf8_ofAscii {bs : Bytes} (h : ∀ b ∈ bs, b < 128) :
    utf8 (ofAscii bs) = bs := by
  have hlow : ∀ b ∈ bs, (Char.ofNat b.toNat).toNat = b.toNat := by
    intro b hb
    exact toNat_ofNat_of_lt (UInt8.lt_iff_toNat_lt.mp (h b hb))
  have hchars : ∀ c ∈ (ofAscii bs).toList, c.toNat < 128 := by
    intro c hc
    rw [ofAscii, String.toList_ofList] at hc
    obtain ⟨b, hb, rfl⟩ := List.mem_map.mp hc
    rw [hlow b hb]
    exact UInt8.lt_iff_toNat_lt.mp (h b hb)
  rw [utf8_eq_ascii hchars, ascii, ofAscii, String.toList_ofList,
    List.map_map]
  conv_rhs => rw [← List.map_id bs]
  apply List.map_congr_left
  intro b hb
  rw [Function.comp, hlow b hb, UInt8.ofNat_toNat]
  rfl

/-! ## Hexadecimal -/

def hexAlphabet : List Char := "0123456789abcdef".toList

/-- The two digits of a byte. -/
def hexByte (b : UInt8) : List Char :=
  [Nat.digitChar (b.toNat / 16), Nat.digitChar (b.toNat % 16)]

def hexChars (bs : Bytes) : List Char := bs.flatMap hexByte

/-- The value of a digit in either case. -/
def hexValue (c : Char) : Option Nat :=
  if '0' ≤ c ∧ c ≤ '9' then some (c.toNat - 48)
  else if 'a' ≤ c ∧ c ≤ 'f' then some (c.toNat - 87)
  else if 'A' ≤ c ∧ c ≤ 'F' then some (c.toNat - 55)
  else none

def unhexChars : List Char → Option Bytes
  | [] => some []
  | [_] => none
  | high :: low :: rest => do
      let h ← hexValue high
      let l ← hexValue low
      let bs ← unhexChars rest
      pure (UInt8.ofNat (16 * h + l) :: bs)

theorem digitChar_mem {n : Nat} (h : n < 16) :
    Nat.digitChar n ∈ hexAlphabet := by
  have hall : ∀ n < 16, Nat.digitChar n ∈ hexAlphabet := by decide
  exact hall n h

theorem digitChar_inj {m n : Nat} (hm : m < 16) (hn : n < 16)
    (h : Nat.digitChar m = Nat.digitChar n) : m = n := by
  have hall : ∀ m < 16, ∀ n < 16,
      Nat.digitChar m = Nat.digitChar n → m = n := by decide
  exact hall m hm n hn h

theorem hexValue_of_mem {c : Char} (h : c ∈ hexAlphabet) :
    ∃ v < 16, hexValue c = some v ∧ Nat.digitChar v = c := by
  have hall : (hexAlphabet.all fun c => (hexValue c).any fun v =>
      decide (v < 16) && Nat.digitChar v == c) = true := by
    decide
  obtain ⟨v, hvalue, hv⟩ :=
    (Option.any_eq_true _ _).mp (List.all_eq_true.mp hall c h)
  rw [Bool.and_eq_true] at hv
  exact ⟨v, of_decide_eq_true hv.1, hvalue, eq_of_beq hv.2⟩

theorem length_hexChars (bs : Bytes) :
    (hexChars bs).length = 2 * bs.length := by
  induction bs with
  | nil => rfl
  | cons b bs ih =>
      rw [hexChars, List.flatMap_cons, List.length_append, ← hexChars, ih,
        List.length_cons]
      show 2 + 2 * bs.length = _
      omega

theorem mem_hexChars {bs : Bytes} {c : Char} (h : c ∈ hexChars bs) :
    c ∈ hexAlphabet := by
  obtain ⟨b, -, hc⟩ := List.mem_flatMap.mp h
  have hb : b.toNat < 256 := b.toNat_lt
  have hhigh : b.toNat / 16 < 16 := by omega
  have hlow : b.toNat % 16 < 16 := by omega
  rcases List.mem_cons.mp hc with rfl | hc
  · exact digitChar_mem hhigh
  · rcases List.mem_singleton.mp hc with rfl
    exact digitChar_mem hlow

theorem hexByte_inj {a b : UInt8} (h : hexByte a = hexByte b) : a = b := by
  have ha : a.toNat < 256 := a.toNat_lt
  have hb : b.toNat < 256 := b.toNat_lt
  injection h with hhigh hrest
  injection hrest with hlow _
  have hhigh := digitChar_inj (by omega) (by omega) hhigh
  have hlow := digitChar_inj (by omega) (by omega) hlow
  exact UInt8.toNat_inj.mp (by omega)

theorem hexChars_inj {as bs : Bytes} (h : hexChars as = hexChars bs) :
    as = bs := by
  induction as generalizing bs with
  | nil =>
      have hlen := congrArg List.length h
      rw [length_hexChars, length_hexChars] at hlen
      have hnil : bs.length = 0 := by
        rw [List.length_nil] at hlen
        omega
      exact (List.eq_nil_of_length_eq_zero hnil).symm
  | cons a as ih =>
      cases bs with
      | nil => cases h
      | cons b bs =>
          rw [hexChars, hexChars, List.flatMap_cons, List.flatMap_cons] at h
          obtain ⟨hhead, htail⟩ := List.append_inj h rfl
          rw [hexByte_inj hhead, ih htail]

/-- Lowercase text is what its bytes are written as. -/
theorem hexChars_unhexChars {cs : List Char} {bs : Bytes}
    (h : unhexChars cs = some bs) (hlow : ∀ c ∈ cs, c ∈ hexAlphabet) :
    hexChars bs = cs := by
  induction cs using unhexChars.induct generalizing bs with
  | case1 =>
      injection h with h
      rw [← h]
      rfl
  | case2 c => cases h
  | case3 high low rest ih =>
      obtain ⟨v, hv, hhigh, rfl⟩ := hexValue_of_mem (hlow high (by simp))
      obtain ⟨w, hw, hlower, rfl⟩ := hexValue_of_mem (hlow low (by simp))
      rw [unhexChars, hhigh, hlower] at h
      cases hrest : unhexChars rest with
      | none =>
          rw [hrest] at h
          cases h
      | some tail =>
          rw [hrest] at h
          injection h with h
          have hbyte : (UInt8.ofNat (16 * v + w)).toNat = 16 * v + w := by
            rw [UInt8.toNat_ofNat']
            omega
          have hdiv : (16 * v + w) / 16 = v := by omega
          have hmod : (16 * v + w) % 16 = w := by omega
          rw [← h, hexChars, List.flatMap_cons, ← hexChars, ih hrest
            fun c hc => hlow c (by simp [hc]), hexByte, hbyte, hdiv, hmod]
          rfl

/-! ## Base58 -/

/-- The number a byte string spells, most significant byte first. -/
def beNat (bs : Bytes) : Nat := leNat bs.reverse

/-- `n.to_bytes((n.bit_length() + 7) // 8, "big")`. -/
def beBytes (n : Nat) : Bytes := (leBytes ((n.size + 7) / 8) n).reverse

def base58Alphabet : List Char :=
  "123456789ABCDEFGHJKLMNPQRSTUVWXYZabcdefghijkmnopqrstuvwxyz".toList

def base58Char (n : Nat) : Char := base58Alphabet.getD n '1'

def base58Number (n : Nat) : List Char :=
  (Nat.digits 58 n).reverse.map base58Char

def base58Chars (bs : Bytes) : List Char :=
  List.replicate (bs.takeWhile (· == 0)).length '1' ++ base58Number (beNat bs)

/-- Two digits are enough for a byte. -/
theorem length_base58Chars (bs : Bytes) :
    (base58Chars bs).length ≤ 3 * bs.length := by
  have hzeros : (bs.takeWhile (· == 0)).length ≤ bs.length :=
    (List.takeWhile_sublist _).length_le
  have hnumber : beNat bs < 58 ^ (2 * bs.length) := by
    have hlt := leNat_lt bs.reverse
    rw [List.length_reverse] at hlt
    have hpow : 256 ^ bs.length ≤ (58 ^ 2) ^ bs.length :=
      Nat.pow_le_pow_left (by decide) _
    rw [← Nat.pow_mul] at hpow
    exact Nat.lt_of_lt_of_le hlt hpow
  have hdigits := (Nat.digits_length_le_iff (by decide) _).mpr hnumber
  rw [base58Chars, base58Number, List.length_append, List.length_replicate,
    List.length_map, List.length_reverse]
  omega

theorem idxOf?_base58Char {n : Nat} (h : n < 58) :
    base58Alphabet.idxOf? (base58Char n) = some n := by
  have hall : ∀ n < 58, base58Alphabet.idxOf? (base58Char n) = some n := by
    decide
  exact hall n h

theorem base58Char_of_idxOf? {c : Char} {n : Nat}
    (h : base58Alphabet.idxOf? c = some n) : n < 58 ∧ base58Char n = c := by
  obtain ⟨hlt, hc, -⟩ := List.idxOf?_eq_some_iff.mp h
  refine ⟨hlt, ?_⟩
  rw [base58Char, List.getD_eq_getElem?_getD, List.getElem?_eq_getElem hlt,
    Option.getD_some]
  exact hc

theorem base58Char_ne_one {n : Nat} (h : n < 58) (h0 : n ≠ 0) :
    base58Char n ≠ '1' := by
  have hall : ∀ n < 58, n ≠ 0 → base58Char n ≠ '1' := by decide
  exact hall n h h0

theorem mem_base58Chars {bs : Bytes} {c : Char} (h : c ∈ base58Chars bs) :
    c ∈ base58Alphabet := by
  rcases List.mem_append.mp h with h | h
  · rw [List.eq_of_mem_replicate h]
    decide
  · obtain ⟨n, hn, rfl⟩ := List.mem_map.mp h
    have hn : n < 58 :=
      Nat.digits_lt_base (by decide) (List.mem_reverse.mp hn)
    have hall : ∀ n < 58, base58Char n ∈ base58Alphabet := by decide
    exact hall n hn

/-- The first digit of a number is not the digit of zero. -/
theorem dropWhile_base58Number (n : Nat) :
    (base58Number n).dropWhile (· == '1') = base58Number n := by
  cases hdigits : (Nat.digits 58 n).reverse with
  | nil => rw [base58Number, hdigits, List.map_nil, List.dropWhile_nil]
  | cons d ds =>
      have hne : Nat.digits 58 n ≠ [] := by
        intro hnil
        rw [hnil] at hdigits
        cases hdigits
      have hn : n ≠ 0 := Nat.digits_ne_nil_iff_ne_zero.mp hne
      have hlast : (Nat.digits 58 n).getLast hne = d := by
        have hhead := List.head_reverse
          (show (Nat.digits 58 n).reverse ≠ [] by rw [hdigits]; simp)
        rw [← hhead]
        simp only [hdigits, List.head_cons]
      have hd0 : d ≠ 0 := by
        rw [← hlast]
        exact Nat.getLast_digit_ne_zero 58 hn
      have hd : d < 58 := by
        apply Nat.digits_lt_base (m := n) (by decide)
        rw [← hlast]
        exact List.getLast_mem hne
      have hchar : ¬(base58Char d == '1') = true := by
        intro hone
        exact base58Char_ne_one hd hd0 (eq_of_beq hone)
      rw [base58Number, hdigits, List.map_cons]
      exact List.dropWhile_cons_of_neg (p := (· == '1')) hchar

/-- What is left after the leading ones is the number. -/
theorem dropWhile_base58Chars (bs : Bytes) :
    (base58Chars bs).dropWhile (· == '1') = base58Number (beNat bs) := by
  rw [base58Chars]
  generalize (bs.takeWhile (· == 0)).length = k
  induction k with
  | zero => exact dropWhile_base58Number _
  | succ k ih =>
      rw [List.replicate_succ, List.cons_append,
        List.dropWhile_cons_of_pos (by decide)]
      exact ih

theorem leNat_append (as bs : Bytes) :
    leNat (as ++ bs) = leNat as + 256 ^ as.length * leNat bs := by
  induction as with
  | nil => rw [List.nil_append, leNat, List.length_nil]; omega
  | cons a as ih =>
      rw [List.cons_append, leNat, leNat, ih, List.length_cons, Nat.pow_succ]
      ring

theorem leNat_replicate_zero (k : Nat) : leNat (List.replicate k 0) = 0 := by
  induction k with
  | zero => rfl
  | succ k ih =>
      rw [List.replicate_succ, leNat, ih]
      rfl

theorem beNat_replicate_append (k : Nat) (bs : Bytes) :
    beNat (List.replicate k 0 ++ bs) = beNat bs := by
  rw [beNat, List.reverse_append, leNat_append, List.reverse_replicate,
    leNat_replicate_zero, Nat.mul_zero, Nat.add_zero, beNat]

/-- The shortest byte string of a number whose first byte is not zero is the
one it came from. -/
theorem beBytes_beNat {bs : Bytes} (h : bs.head? ≠ some 0) :
    beBytes (beNat bs) = bs := by
  cases bs with
  | nil => rfl
  | cons b bs =>
      have hb : b ≠ 0 := by
        intro hb
        exact h (by rw [hb]; rfl)
      have hb : 0 < b.toNat := by
        apply Nat.pos_of_ne_zero
        intro hzero
        exact hb (UInt8.toNat_inj.mp hzero)
      have hnat : beNat (b :: bs)
          = leNat bs.reverse + 256 ^ bs.length * b.toNat := by
        rw [beNat, List.reverse_cons, leNat_append, List.length_reverse]
        rfl
      have hpow : 256 ^ bs.length = 2 ^ (8 * bs.length) := by
        rw [Nat.pow_mul]
      have hlow : 2 ^ (8 * bs.length) ≤ beNat (b :: bs) := by
        rw [hnat, hpow]
        have := Nat.le_mul_of_pos_right (2 ^ (8 * bs.length)) hb
        omega
      have hhigh : beNat (b :: bs) < 2 ^ (8 * (bs.length + 1)) := by
        have hlt := leNat_lt (b :: bs).reverse
        rw [List.length_reverse, List.length_cons] at hlt
        rw [Nat.pow_mul]
        exact hlt
      have hsize := Nat.lt_size.mpr hlow
      have hsize' := Nat.size_le.mpr hhigh
      have hlen : ((beNat (b :: bs)).size + 7) / 8
          = (b :: bs).reverse.length := by
        rw [List.length_reverse, List.length_cons]
        omega
      rw [beBytes, hlen, beNat, leBytes_leNat, List.reverse_reverse]

theorem takeWhile_eq_replicate (bs : Bytes) :
    bs.takeWhile (· == 0)
      = List.replicate (bs.takeWhile (· == 0)).length 0 := by
  apply List.eq_replicate_length.mpr
  intro b hb
  exact eq_of_beq (List.all_eq_true.mp List.all_takeWhile b hb)

/-- The zero bytes put back in front of the shortest byte string. -/
theorem replicate_append_beBytes (bs : Bytes) :
    List.replicate (bs.takeWhile (· == 0)).length 0 ++ beBytes (beNat bs)
      = bs := by
  have hsplit : bs.takeWhile (· == 0) ++ bs.dropWhile (· == 0) = bs :=
    List.takeWhile_append_dropWhile
  have hnat : beNat bs = beNat (bs.dropWhile (· == 0)) := by
    conv_lhs => rw [← hsplit, takeWhile_eq_replicate]
    exact beNat_replicate_append _ _
  have hhead : (bs.dropWhile (· == 0)).head? ≠ some 0 := by
    intro hzero
    have hnot := List.head?_dropWhile_not (· == (0 : UInt8)) bs
    rw [hzero] at hnot
    cases hnot
  rw [hnat, beBytes_beNat hhead, ← takeWhile_eq_replicate]
  exact hsplit

theorem base58Chars_ne_nil {bs : Bytes} (h : bs ≠ []) :
    base58Chars bs ≠ [] := by
  intro hnil
  rw [base58Chars, List.append_eq_nil_iff] at hnil
  have hzeros : (bs.takeWhile (· == 0)).length = 0 := by
    have hlen := congrArg List.length hnil.1
    rwa [List.length_replicate] at hlen
  have hnumber : beNat bs = 0 := by
    have hdigits := hnil.2
    rw [base58Number, List.map_eq_nil_iff, List.reverse_eq_nil_iff] at hdigits
    exact Nat.digits_eq_nil_iff_eq_zero.mp hdigits
  have hbs := replicate_append_beBytes bs
  rw [hzeros, hnumber] at hbs
  exact h hbs.symm

theorem beNat_beBytes (n : Nat) : beNat (beBytes n) = n := by
  have hlt : n < 256 ^ ((n.size + 7) / 8) := by
    have hpow : 256 ^ ((n.size + 7) / 8) = 2 ^ (8 * ((n.size + 7) / 8)) := by
      rw [Nat.pow_mul]
    rw [hpow]
    exact Nat.size_le.mp (by omega)
  rw [beNat, beBytes, List.reverse_reverse, leNat_leBytes hlt]

/-- The shortest byte string of a number does not start with a zero. -/
theorem head?_beBytes (n : Nat) : (beBytes n).head? ≠ some 0 := by
  intro hhead
  obtain ⟨rest, hrest⟩ := List.head?_eq_some_iff.mp hhead
  have hlen : rest.length + 1 = (n.size + 7) / 8 := by
    have := congrArg List.length hrest
    rw [beBytes, List.length_reverse, length_leBytes, List.length_cons] at this
    omega
  have hnat : beNat rest = n := by
    rw [← beNat_beBytes n, hrest]
    exact (beNat_replicate_append 1 rest).symm
  have hlt : n < 2 ^ (8 * rest.length) := by
    have hle := leNat_lt rest.reverse
    rw [List.length_reverse] at hle
    rw [← hnat, Nat.pow_mul]
    exact hle
  have hsize := Nat.size_le.mpr hlt
  omega

theorem takeWhile_replicate_append_beBytes (k n : Nat) :
    (List.replicate k 0 ++ beBytes n).takeWhile (· == 0)
      = List.replicate k 0 := by
  induction k with
  | zero =>
      cases hbytes : beBytes n with
      | nil => rfl
      | cons b bs =>
          have hb : ¬(b == 0) = true := by
            intro hzero
            apply head?_beBytes n
            rw [hbytes, List.head?_cons, eq_of_beq hzero]
          exact List.takeWhile_cons_of_neg hb
  | succ k ih =>
      rw [List.replicate_succ, List.cons_append,
        List.takeWhile_cons_of_pos (by rfl), ih]

/-- Ones for the zero bytes, then the digits of the number. -/
theorem base58Chars_replicate_append (k n : Nat) :
    base58Chars (List.replicate k 0 ++ beBytes n)
      = List.replicate k '1' ++ base58Number n := by
  rw [base58Chars, takeWhile_replicate_append_beBytes, List.length_replicate,
    beNat_replicate_append, beNat_beBytes]

theorem foldl_digits (digits : List Nat) :
    digits.reverse.foldl (fun n d => n * 58 + d) 0 = Nat.ofDigits 58 digits := by
  rw [List.foldl_reverse, Nat.ofDigits_eq_foldr]
  congr 1
  funext d n
  simp only [Nat.cast_id]
  ring

/-- Digits that do not start with zero are the digits of what they spell. -/
theorem base58Number_foldl {digits : List Nat} (hlt : ∀ d ∈ digits, d < 58)
    (hhead : digits.head? ≠ some 0) :
    base58Number (digits.foldl (fun n d => n * 58 + d) 0)
      = digits.map base58Char := by
  have hvalue := foldl_digits digits.reverse
  rw [List.reverse_reverse] at hvalue
  have hlast : ∀ h : digits.reverse ≠ [], digits.reverse.getLast h ≠ 0 := by
    intro h hzero
    apply hhead
    rw [← hzero, List.getLast_reverse]
    exact List.head?_eq_some_head _
  have hdigits := Nat.digits_ofDigits 58 (by decide) digits.reverse
    (fun d hd => hlt d (List.mem_reverse.mp hd)) hlast
  rw [base58Number, hvalue, hdigits, List.reverse_reverse]

end SapioTee.Lib
