import SapioTee.Lib.JsonText

/-!
# JSON values are read back from their text

A value without fractions and constants is what the reader makes of the text
a printer wrote for it, whatever text follows, as long as that does not go
on with a number. Of the printer's style only that it is legible is used:
line breaks and gaps are whitespace, and an escaped character is read as
itself. The induction is over the value; the items and members after the
first are read off the same way as they are printed.
-/

namespace SapioTee.Lib.JsonText

/-! ## Characters and strings -/

theorem expect_self (c : Char) (rest : List Char) :
    expect c (c :: rest) = some rest :=
  if_pos rfl

theorem expect_ne {c d : Char} (h : d ≠ c) (rest : List Char) :
    expect c (d :: rest) = none :=
  if_neg h

theorem skip_cons {c : Char} (h : isWhitespace c = false) (cs : List Char) :
    skip (c :: cs) = c :: cs :=
  List.dropWhile_cons_of_neg (by rw [h]; exact Bool.false_ne_true)

theorem skip_spaces {spaces : List Char}
    (h : ∀ c ∈ spaces, isWhitespace c = true) (cs : List Char) :
    skip (spaces ++ cs) = skip cs :=
  List.dropWhile_append_of_pos h

theorem hexValue_digitChar {n : Nat} (h : n < 16) :
    hexValue (Nat.digitChar n) = some n := by
  have hall : ∀ n < 16, hexValue (Nat.digitChar n) = some n := by decide
  exact hall n h

theorem readHex4_hex4 {n : Nat} (h : n < 0x10000) (rest : List Char) :
    readHex4 (hex4 n ++ rest) = some (n, rest) := by
  have hn : ((n / 4096 % 16 * 16 + n / 256 % 16) * 16 + n / 16 % 16) * 16 +
      n % 16 = n := by omega
  show (do
    let a ← hexValue (Nat.digitChar (n / 4096 % 16))
    let b ← hexValue (Nat.digitChar (n / 256 % 16))
    let c ← hexValue (Nat.digitChar (n / 16 % 16))
    let d ← hexValue (Nat.digitChar (n % 16))
    pure (((a * 16 + b) * 16 + c) * 16 + d, rest)) = some (n, rest)
  rw [hexValue_digitChar (by omega), hexValue_digitChar (by omega),
    hexValue_digitChar (by omega), hexValue_digitChar (by omega)]
  show some (_, rest) = some (n, rest)
  rw [hn]

/-- The numbers a character may have. -/
theorem toNat_valid (c : Char) :
    c.toNat < 0xd800 ∨ 0xdfff < c.toNat ∧ c.toNat < 0x110000 :=
  c.valid

theorem readUnicode_hex4 {c : Char} (h : c.toNat < 0x10000)
    (rest : List Char) :
    readUnicode (hex4 c.toNat ++ rest) = some (c, rest) := by
  have hvalid := toNat_valid c
  rw [readUnicode, readHex4_hex4 h]
  show (if 0xd800 ≤ c.toNat ∧ c.toNat ≤ 0xdbff then _ else _) = _
  rw [if_neg (by omega), if_neg (by omega), Char.ofNat_toNat]
  rfl

theorem readUnicode_pair {high low : Nat}
    (hhigh : 0xd800 ≤ high ∧ high ≤ 0xdbff)
    (hlow : 0xdc00 ≤ low ∧ low ≤ 0xdfff) (rest : List Char) :
    readUnicode (hex4 high ++ backslash :: 'u' :: (hex4 low ++ rest))
      = some (Char.ofNat (0x10000 + (high - 0xd800) * 1024 + (low - 0xdc00)),
        rest) := by
  rw [readUnicode, readHex4_hex4 (by omega), some_bind]
  dsimp only
  rw [if_pos hhigh, expect_self, some_bind, expect_self, some_bind,
    readHex4_hex4 (by omega), some_bind]
  dsimp only
  rw [if_pos hlow]
  rfl

/-- The two halves of a number make it up again. -/
theorem surrogates (c : Char) (h : 0x10000 ≤ c.toNat) :
    ∃ high low, 0xd800 + (c.toNat - 0x10000) / 1024 = high ∧
      0xdc00 + (c.toNat - 0x10000) % 1024 = low ∧
      (0xd800 ≤ high ∧ high ≤ 0xdbff) ∧ (0xdc00 ≤ low ∧ low ≤ 0xdfff) ∧
      0x10000 + (high - 0xd800) * 1024 + (low - 0xdc00) = c.toNat := by
  have hvalid := toNat_valid c
  refine ⟨_, _, rfl, rfl, ?_, ?_, ?_⟩
  · omega
  · omega
  · omega

theorem letters_spec : ∀ l ∈ letters, l.1 ≠ 'u' ∧ l.1 ≠ '/' ∧
    letters.lookup l.1 = some l.2 := by
  decide

/-- A character that needs no letter is neither quote nor backslash. -/
theorem ne_of_no_letter {c : Char}
    (h : (letters.find? fun l => l.2 == c) = none) :
    c ≠ quote ∧ c ≠ backslash := by
  have hall := List.find?_eq_none.mp h
  refine ⟨?_, ?_⟩
  · intro hc
    refine hall (quote, quote) (by decide) ?_
    rw [hc]
    rfl
  · intro hc
    refine hall (backslash, backslash) (by decide) ?_
    rw [hc]
    rfl

theorem readChar_letter {c : Char} {l : Char × Char}
    (h : (letters.find? fun l => l.2 == c) = some l) (rest : List Char) :
    readChar (backslash :: l.1 :: rest) = some (c, rest) := by
  have hl := List.mem_of_find?_eq_some h
  have hc : (l.2 == c) = true :=
    List.find?_some (p := fun m : Char × Char => m.2 == c) h
  obtain ⟨hu, hslash, hlookup⟩ := letters_spec l hl
  rw [readChar, if_pos rfl]
  show (if l.1 = 'u' then _ else _) = _
  rw [if_neg hu, if_neg hslash, hlookup, eq_of_beq hc]
  rfl

theorem readChar_self {c : Char}
    (h : (letters.find? fun l => l.2 == c) = none) (hc : 32 ≤ c.toNat)
    (rest : List Char) : readChar (c :: rest) = some (c, rest) := by
  show (if c = backslash then _ else _) = _
  rw [if_neg (ne_of_no_letter h).2, if_neg (by omega)]

theorem readChar_unicode {c : Char} (h : c.toNat < 0x10000)
    (rest : List Char) :
    readChar (backslash :: 'u' :: (hex4 c.toNat ++ rest)) = some (c, rest) := by
  rw [readChar, if_pos rfl]
  exact readUnicode_hex4 h rest

/-- A style a reader understands. -/
structure Style.Legible (S : Style) : Prop where
  newline : ∀ level, ∀ c ∈ S.newline level, isWhitespace c = true
  gap : ∀ c ∈ S.gap, isWhitespace c = true
  escape_cons : ∀ c, ∃ d tail, S.escape c = d :: tail ∧ d ≠ quote
  readChar_escape : ∀ c rest, readChar (S.escape c ++ rest) = some (c, rest)

theorem escapeAscii_cons (c : Char) :
    ∃ d tail, escapeAscii c = d :: tail ∧ d ≠ quote := by
  have hquote : backslash ≠ quote := by decide
  rw [escapeAscii]
  split
  · exact ⟨_, _, rfl, hquote⟩
  · next hfind =>
      split
      · exact ⟨_, _, rfl, (ne_of_no_letter hfind).1⟩
      · split
        · exact ⟨_, _, rfl, hquote⟩
        · exact ⟨_, _, rfl, hquote⟩

theorem readChar_escapeAscii (c : Char) (rest : List Char) :
    readChar (escapeAscii c ++ rest) = some (c, rest) := by
  rw [escapeAscii]
  split
  · next l hfind => exact readChar_letter hfind rest
  · next hfind =>
      split
      · next hplain => exact readChar_self hfind hplain.1 rest
      · split
        · next hshort => exact readChar_unicode hshort rest
        · next hlong =>
            obtain ⟨high, low, hhigh, hlow, hin, hin', hnumber⟩ :=
              surrogates c (by omega)
            rw [hhigh, hlow, List.append_assoc]
            show readChar (backslash :: 'u' :: (hex4 high ++
              (backslash :: 'u' :: (hex4 low ++ rest)))) = _
            rw [readChar, if_pos rfl]
            show readUnicode _ = _
            rw [readUnicode_pair hin hin', hnumber, Char.ofNat_toNat]

theorem indented_legible (float : Rat → List Char) :
    (indented float).Legible where
  newline := by
    intro level c hc
    rcases List.mem_cons.mp hc with hc | hc
    · rw [hc]
      rfl
    · rw [List.eq_of_mem_replicate hc]
      rfl
  gap := by
    intro c hc
    rw [List.mem_singleton.mp hc]
    rfl
  escape_cons := escapeAscii_cons
  readChar_escape := readChar_escapeAscii

theorem escapeControl_cons (c : Char) :
    ∃ d tail, escapeControl c = d :: tail ∧ d ≠ quote := by
  have hquote : backslash ≠ quote := by decide
  rw [escapeControl]
  split
  · exact ⟨_, _, rfl, hquote⟩
  · next hfind =>
      split
      · exact ⟨_, _, rfl, hquote⟩
      · exact ⟨_, _, rfl, (ne_of_no_letter hfind).1⟩

theorem readChar_escapeControl (c : Char) (rest : List Char) :
    readChar (escapeControl c ++ rest) = some (c, rest) := by
  rw [escapeControl]
  split
  · next l hfind => exact readChar_letter hfind rest
  · next hfind =>
      split
      · next hcontrol => exact readChar_unicode (by omega) rest
      · next hplain => exact readChar_self hfind (by omega) rest

theorem compact_legible (float : Rat → List Char) :
    (compact float).Legible where
  newline := by
    intro level c hc
    cases hc
  gap := by
    intro c hc
    cases hc
  escape_cons := escapeControl_cons
  readChar_escape := readChar_escapeControl

theorem readString_escape {S : Style} (hS : S.Legible) {s : List Char}
    {fuel : Nat} (h : (s.flatMap S.escape).length < fuel)
    (rest : List Char) :
    readString fuel (s.flatMap S.escape ++ quote :: rest)
      = some (s, rest) := by
  induction s generalizing fuel with
  | nil =>
      cases fuel with
      | zero => cases h
      | succ fuel => exact if_pos rfl
  | cons c s ih =>
      obtain ⟨d, tail, hescape, hd⟩ := hS.escape_cons c
      rw [List.flatMap_cons, List.length_append] at h
      cases fuel with
      | zero => cases h
      | succ fuel =>
          have hlen : (S.escape c).length = tail.length + 1 := by
            rw [hescape, List.length_cons]
          have hchar := hS.readChar_escape c
            (s.flatMap S.escape ++ quote :: rest)
          rw [hescape] at hchar
          rw [List.flatMap_cons, hescape, List.append_assoc]
          show (if d = quote then _ else _) = _
          rw [if_neg hd]
          show (readChar (d :: tail ++ _) >>= _) = _
          rw [hchar]
          show (readString fuel _ >>= _) = _
          rw [ih (by omega)]
          rfl

/-! ## Numbers -/

/-- Nothing here goes on with a number. -/
def Ends (rest : List Char) : Prop :=
  ∀ c tail, rest = c :: tail →
    c.isDigit = false ∧ c ≠ '.' ∧ c ≠ 'e' ∧ c ≠ 'E'

theorem ends_cons {c : Char} {rest : List Char} (h : c.isDigit = false ∧
    c ≠ '.' ∧ c ≠ 'e' ∧ c ≠ 'E') : Ends (c :: rest) := by
  intro d tail heq
  injection heq with heq
  rw [← heq]
  exact h

theorem ends_spaces {spaces rest : List Char}
    (h : ∀ c ∈ spaces, isWhitespace c = true) (hrest : Ends rest) :
    Ends (spaces ++ rest) := by
  cases spaces with
  | nil => exact hrest
  | cons c spaces =>
      have hc := h c List.mem_cons_self
      simp only [isWhitespace, Bool.or_eq_true, beq_iff_eq] at hc
      rcases hc with ((hc | hc) | hc) | hc
      · rw [hc]
        exact ends_cons (by decide)
      · rw [hc]
        exact ends_cons (by decide)
      · rw [hc]
        exact ends_cons (by decide)
      · rw [hc]
        exact ends_cons (by decide)

theorem ends_comma (rest : List Char) : Ends (',' :: rest) :=
  ends_cons (by decide)

theorem digits_append {digits rest : List Char}
    (h : ∀ c ∈ digits, c.isDigit = true) (hrest : Ends rest) :
    (digits ++ rest).takeWhile Char.isDigit = digits ∧
      (digits ++ rest).dropWhile Char.isDigit = rest := by
  rw [List.takeWhile_append_of_pos h, List.dropWhile_append_of_pos h]
  cases rest with
  | nil => exact ⟨List.append_nil _, rfl⟩
  | cons c tail =>
      have hc := (hrest c tail rfl).1
      rw [List.takeWhile_cons_of_neg (by rw [hc]; exact Bool.false_ne_true),
        List.dropWhile_cons_of_neg (by rw [hc]; exact Bool.false_ne_true)]
      exact ⟨List.append_nil _, rfl⟩

/-- Only zero is written with a zero in front. -/
theorem head_toDigits {n : Nat} (h : 0 < n) {c : Char} {tail : List Char}
    (heq : Nat.toDigits 10 n = c :: tail) : c ≠ '0' := by
  induction n using Nat.strongRecOn generalizing c tail with
  | ind n ih =>
      by_cases hn : n < 10
      · rw [Nat.toDigits_of_lt_base hn] at heq
        injection heq with heq
        have hall : ∀ n < 10, 0 < n → Nat.digitChar n ≠ '0' := by decide
        rw [← heq]
        exact hall n hn h
      · rw [Nat.toDigits_of_base_le (by omega) (by omega)] at heq
        cases hhead : Nat.toDigits 10 (n / 10) with
        | nil => exact absurd hhead Nat.toDigits_ne_nil
        | cons d rest =>
            rw [hhead] at heq
            injection heq with heq
            rw [← heq]
            exact ih (n / 10) (by omega) (by omega) hhead

theorem whole_toDigits (n : Nat) {rest : List Char} (h : Ends rest) :
    whole (Nat.toDigits 10 n ++ rest) = some (Nat.toDigits 10 n, rest) := by
  have hdigits : ∀ c ∈ Nat.toDigits 10 n, c.isDigit = true :=
    fun c hc => Nat.isDigit_of_mem_toDigits (by omega) (by omega) hc
  obtain ⟨htake, hdrop⟩ := digits_append hdigits h
  by_cases hn : n = 0
  · rw [hn, Nat.toDigits_zero, List.singleton_append, whole, if_pos rfl]
  · cases heq : Nat.toDigits 10 n with
    | nil => exact absurd heq Nat.toDigits_ne_nil
    | cons c tail =>
        rw [heq] at htake hdrop
        have hc : c.isDigit = true := hdigits c (by rw [heq]; simp)
        rw [List.cons_append] at htake hdrop ⊢
        rw [whole, if_neg (head_toDigits (by omega) heq), if_pos hc, htake,
          hdrop]

theorem fraction_ends {rest : List Char} (h : Ends rest) :
    fraction rest = ([], rest) := by
  cases rest with
  | nil => rfl
  | cons c tail =>
      have hc := (h c tail rfl).2.1
      rw [fraction, if_neg fun hdot => hc hdot.1]

theorem exponent_ends {rest : List Char} (h : Ends rest) :
    exponent rest = ([], rest) := by
  cases rest with
  | nil => rfl
  | cons c tail =>
      have hc := (h c tail rfl).2.2
      rw [exponent]
      dsimp only
      rw [if_neg]
      intro he
      exact he.1.elim hc.1 hc.2

section

variable (float : List Char → Json)

theorem readUnsigned_toDigits (sign : List Char) {n : Nat}
    (hlen : (Nat.toDigits 10 n).length ≤ maxDigits) {rest : List Char}
    (h : Ends rest) :
    readUnsigned float sign (Nat.toDigits 10 n ++ rest)
      = some (.int (if sign = [] then (n : Int) else -n), rest) := by
  rw [readUnsigned, whole_toDigits n h, some_bind]
  dsimp only
  rw [fraction_ends h]
  dsimp only
  rw [exponent_ends h]
  dsimp only
  rw [if_pos ⟨rfl, rfl⟩, if_pos hlen, Nat.ofDigitChars_ten_toDigits]
  rfl

/-- A printed number starts like no word. -/
def NumberStart (c : Char) : Prop := c.isDigit = true ∨ c = '-'

theorem intChars_cons (n : Int) :
    ∃ c tail, intChars n = c :: tail ∧ NumberStart c := by
  rw [intChars]
  split
  · exact ⟨_, _, rfl, .inr rfl⟩
  · cases heq : Nat.toDigits 10 n.natAbs with
    | nil => exact absurd heq Nat.toDigits_ne_nil
    | cons c tail =>
        refine ⟨c, tail, rfl, .inl (Nat.isDigit_of_mem_toDigits
          (b := 10) (n := n.natAbs) (by omega) (by omega) ?_)⟩
        rw [heq]
        exact List.mem_cons_self

theorem readNumber_intChars {n : Int}
    (hlen : (Nat.toDigits 10 n.natAbs).length ≤ maxDigits)
    {rest : List Char} (h : Ends rest) :
    readNumber float (intChars n ++ rest) = some (.int n, rest) := by
  rw [intChars]
  split
  · next hneg =>
      rw [List.cons_append, readNumber, if_pos rfl,
        readUnsigned_toDigits float _ hlen h, if_neg (List.cons_ne_nil _ _)]
      have hn : -(n.natAbs : Int) = n := by omega
      rw [hn]
  · next hpos =>
      have hread := readUnsigned_toDigits float [] hlen h
      have hn : (n.natAbs : Int) = n := by omega
      rw [if_pos rfl, hn] at hread
      cases heq : Nat.toDigits 10 n.natAbs with
      | nil => exact absurd heq Nat.toDigits_ne_nil
      | cons c tail =>
          have hc : c.isDigit = true :=
            Nat.isDigit_of_mem_toDigits (b := 10) (n := n.natAbs) (by omega)
              (by omega) (by rw [heq]; exact List.mem_cons_self)
          have hsign : c ≠ '-' := by
            intro hc'
            rw [hc'] at hc
            cases hc
          rw [heq] at hread
          rw [List.cons_append] at hread ⊢
          rw [readNumber, if_neg hsign, hread]

theorem readWord_ne {text : String} {v : Json} {c d : Char}
    {rest : List Char} (htext : text.toList.head? = some d) (h : c ≠ d) :
    readWord text v (c :: rest) = none := by
  rw [readWord]
  cases heq : text.toList with
  | nil =>
      rw [heq] at htext
      cases htext
  | cons e tail =>
      rw [heq] at htext
      injection htext with htext
      have hlead : (e == c) = false := by
        rw [htext]
        exact beq_false_of_ne fun heq => h heq.symm
      rw [List.isPrefixOf_cons_cons, hlead, Bool.false_and]
      exact if_neg Bool.false_ne_true

/-- What a value that is no number may start with, or come after. -/
def starts : List Char :=
  ['n', 't', 'f', quote, '[', ']', lbrace, ' ', '\t', '\n', '\r']

theorem numberStart_ne {c : Char} (h : NumberStart c) :
    ∀ d ∈ starts, c ≠ d := by
  have hall : (starts.all fun d => decide (d.isDigit = false ∧ d ≠ '-'))
      = true := by
    decide
  intro d hd heq
  obtain ⟨hdigit, hminus⟩ :=
    of_decide_eq_true (List.all_eq_true.mp hall d hd)
  rw [heq] at h
  rcases h with h | h
  · rw [hdigit] at h
    cases h
  · exact hminus h

theorem readScalar_intChars {n : Int}
    (hlen : (Nat.toDigits 10 n.natAbs).length ≤ maxDigits)
    {rest : List Char} (h : Ends rest) :
    readScalar float (intChars n ++ rest) = some (.int n, rest) := by
  have hread := readNumber_intChars float hlen h
  obtain ⟨c, tail, heq, hstart⟩ := intChars_cons n
  have hne := numberStart_ne hstart
  rw [heq] at hread ⊢
  rw [List.cons_append] at hread ⊢
  rw [readScalar, readWord_ne rfl (hne 'n' (by decide)),
    readWord_ne rfl (hne 't' (by decide)),
    readWord_ne rfl (hne 'f' (by decide)), hread]
  rfl

/-! ## Values -/

mutual

/-- Neither a fraction nor a constant anywhere, and no integer too long. -/
def plain : Json → Bool
  | .int n => decide ((Nat.toDigits 10 n.natAbs).length ≤ maxDigits)
  | .float _ => false
  | .constant _ => false
  | .arr items => plainItems items
  | .obj members => plainMembers members
  | _ => true

def plainItems : List Json → Bool
  | [] => true
  | x :: xs => plain x && plainItems xs

def plainMembers : List (String × Json) → Bool
  | [] => true
  | (_, x) :: xs => plain x && plainMembers xs

end

@[simp] theorem plain_bool (b : Bool) : plain (.bool b) = true := by
  simp [plain]

@[simp] theorem plain_str (s : String) : plain (.str s) = true := by
  simp [plain]

@[simp] theorem plain_arr (items : List Json) :
    plain (.arr items) = plainItems items := by
  rw [plain]

@[simp] theorem plain_obj (members : Members) :
    plain (.obj members) = plainMembers members := by
  rw [plain]

@[simp] theorem plainItems_nil : plainItems [] = true := by
  rw [plainItems]

@[simp] theorem plainItems_cons (x : Json) (xs : List Json) :
    plainItems (x :: xs) = (plain x && plainItems xs) := by
  rw [plainItems]

@[simp] theorem plainMembers_nil : plainMembers [] = true := by
  rw [plainMembers]

@[simp] theorem plainMembers_cons (m : String × Json) (ms : Members) :
    plainMembers (m :: ms) = (plain m.2 && plainMembers ms) := by
  rw [plainMembers]

theorem plain_int {n : Int} (h : n.natAbs < 10 ^ 4) :
    plain (.int n) = true := by
  have hlen : (Nat.toDigits 10 n.natAbs).length ≤ 4 :=
    (Nat.length_toDigits_le_iff (by omega) (by omega)).mpr h
  rw [plain]
  exact decide_eq_true (Nat.le_trans hlen (by decide))

theorem quoted_append (S : Style) (s : String) (rest : List Char) :
    quoted S s ++ rest
      = quote :: (s.toList.flatMap S.escape ++ quote :: rest) := by
  rw [quoted, List.append_assoc, List.cons_append]
  rfl

/-- A printed value starts with a character of its own. -/
theorem render_cons (S : Style) {v : Json} (h : plain v = true)
    (level : Nat) :
    ∃ c tail, render S level v = c :: tail ∧ c ≠ ']' ∧
      isWhitespace c = false := by
  match v with
  | .null => exact ⟨_, _, rfl, by decide, by decide⟩
  | .bool true => exact ⟨_, _, rfl, by decide, by decide⟩
  | .bool false => exact ⟨_, _, rfl, by decide, by decide⟩
  | .int n =>
      obtain ⟨c, tail, heq, hstart⟩ := intChars_cons n
      have hne := numberStart_ne hstart
      refine ⟨c, tail, ?_, hne _ (by decide), ?_⟩
      · rw [render, heq]
      · rw [isWhitespace, beq_false_of_ne (hne ' ' (by decide)),
          beq_false_of_ne (hne '\t' (by decide)),
          beq_false_of_ne (hne '\n' (by decide)),
          beq_false_of_ne (hne '\r' (by decide))]
        rfl
  | .float _ =>
      rw [plain] at h
      cases h
  | .constant _ =>
      rw [plain] at h
      cases h
  | .str s =>
      rw [render]
      exact ⟨_, _, rfl, by decide, by decide⟩
  | .arr [] =>
      rw [render]
      exact ⟨_, _, rfl, by decide, by decide⟩
  | .arr (x :: xs) =>
      rw [render]
      exact ⟨_, _, rfl, by decide, by decide⟩
  | .obj [] =>
      rw [render]
      exact ⟨_, _, rfl, by decide, by decide⟩
  | .obj ((name, x) :: xs) =>
      rw [render]
      exact ⟨_, _, rfl, by decide, by decide⟩

theorem skip_render (S : Style) {v : Json} (h : plain v = true) (level : Nat)
    (rest : List Char) :
    skip (render S level v ++ rest) = render S level v ++ rest := by
  obtain ⟨c, tail, heq, _, hc⟩ := render_cons S h level
  rw [heq, List.cons_append, skip_cons hc]

theorem expect_render (S : Style) {v : Json} (h : plain v = true)
    (level : Nat) (rest : List Char) :
    expect ']' (render S level v ++ rest) = none := by
  obtain ⟨c, tail, heq, hc, _⟩ := render_cons S h level
  rw [heq, List.cons_append, expect_ne hc]

section Legible

variable {S : Style} (hS : S.Legible)

include hS

theorem readString_quoted {s : String} {fuel : Nat}
    (h : (quoted S s).length ≤ fuel + 1) (rest : List Char) :
    readString fuel (s.toList.flatMap S.escape ++ quote :: rest)
      = some (s.toList, rest) := by
  refine readString_escape hS ?_ rest
  rw [quoted, List.length_append, List.length_cons, List.length_singleton] at h
  omega

theorem ends_renderItems (level outer : Nat) (xs : List Json)
    (rest : List Char) :
    Ends (renderItems S level xs ++ (S.newline outer ++ ']' :: rest)) := by
  cases xs with
  | nil =>
      rw [renderItems, List.nil_append]
      exact ends_spaces (hS.newline outer) (ends_cons (by decide))
  | cons x xs =>
      rw [renderItems]
      exact ends_comma _

theorem ends_renderMembers (level outer : Nat) (xs : Members)
    (rest : List Char) :
    Ends (renderMembers S level xs ++ (S.newline outer ++ rbrace :: rest))
      := by
  cases xs with
  | nil =>
      rw [renderMembers, List.nil_append]
      exact ends_spaces (hS.newline outer) (ends_cons (by decide))
  | cons x xs =>
      rw [renderMembers]
      exact ends_comma _

/-- The closing bracket after the last item or member. -/
theorem expect_close {c : Char} (h : isWhitespace c = false) (outer : Nat)
    (rest : List Char) :
    expect c (skip (S.newline outer ++ c :: rest)) = some rest := by
  rw [skip_spaces (hS.newline outer), skip_cons h, expect_self]

mutual

/-- A value is read back from its text, whatever follows. -/
theorem readValue_render (v : Json) (h : plain v = true) (level : Nat)
    (fuel : Nat) (hfuel : (render S level v).length ≤ fuel)
    {rest : List Char} (hrest : Ends rest) :
    readValue float fuel (render S level v ++ rest) = some (v, rest) := by
  obtain ⟨c, tail, hcons, _⟩ := render_cons S h level
  obtain ⟨fuel, rfl⟩ : ∃ n, fuel = n + 1 := by
    rw [hcons, List.length_cons] at hfuel
    exact ⟨fuel - 1, by omega⟩
  match v with
  | .null =>
      rw [render]
      rfl
  | .bool true =>
      rw [render]
      rfl
  | .bool false =>
      rw [render]
      rfl
  | .int n =>
      obtain ⟨c, tail, heq, hstart⟩ := intChars_cons n
      have hne := numberStart_ne hstart
      rw [plain] at h
      have hread := readScalar_intChars float (of_decide_eq_true h) hrest
      rw [render]
      rw [heq, List.cons_append] at hread ⊢
      rw [readValue, if_neg (hne _ (by decide)), if_neg (hne _ (by decide)),
        if_neg (hne _ (by decide)), hread]
  | .float _ =>
      rw [plain] at h
      cases h
  | .constant _ =>
      rw [plain] at h
      cases h
  | .str s =>
      rw [render] at hfuel ⊢
      rw [quoted_append, readValue, if_pos rfl, readString_quoted hS hfuel,
        some_bind]
      dsimp only
      rw [String.ofList_toList]
      rfl
  | .arr [] =>
      rw [render]
      rfl
  | .arr (x :: xs) =>
      rw [plain, plainItems, Bool.and_eq_true] at h
      rw [render] at hfuel ⊢
      simp only [List.length_append, List.length_cons] at hfuel
      have hx := readValue_render x h.1 (level + 1) (fuel - 1) (by omega)
        (ends_renderItems hS (level + 1) level xs rest)
      have hxs := readItems_render xs h.2 (level + 1) level hx (by omega)
      rw [show fuel - 1 + 1 = fuel by omega] at hxs
      simp only [List.append_assoc, List.cons_append, List.nil_append]
      rw [readValue, if_neg (by decide), if_pos rfl,
        skip_spaces (hS.newline _), skip_render S h.1, expect_render S h.1]
      dsimp only
      rw [hxs]
      rfl
  | .obj [] =>
      rw [render]
      rfl
  | .obj ((name, x) :: xs) =>
      rw [plain, plainMembers, Bool.and_eq_true] at h
      rw [render] at hfuel ⊢
      simp only [List.length_append, List.length_cons] at hfuel
      have hx := readValue_render x h.1 (level + 1) (fuel - 1) (by omega)
        (ends_renderMembers hS (level + 1) level xs rest)
      have hxs := readMembers_render xs h.2 (level + 1) level name h.1 hx
        (by omega) (by omega)
      rw [show fuel - 1 + 1 = fuel by omega] at hxs
      simp only [List.append_assoc, List.cons_append, List.nil_append]
      rw [readValue, if_neg (by decide), if_neg (by decide), if_pos rfl,
        skip_spaces (hS.newline _), quoted_append, skip_cons (by decide),
        expect_ne (by decide)]
      dsimp only
      rw [← quoted_append, hxs]
      rfl

theorem readItems_render (xs : List Json) (h : plainItems xs = true)
    (level outer : Nat) {fuel : Nat} {x : Json} {cs rest : List Char}
    (hx : readValue float fuel cs = some (x, renderItems S level xs ++
      (S.newline outer ++ ']' :: rest)))
    (hfuel : (renderItems S level xs).length ≤ fuel) :
    readItems float (fuel + 1) cs = some (x :: xs, rest) := by
  match xs with
  | [] =>
      rw [renderItems, List.nil_append] at hx
      rw [readItems, hx, some_bind]
      dsimp only
      rw [expect_close hS (by decide)]
      rfl
  | y :: ys =>
      rw [plainItems, Bool.and_eq_true] at h
      rw [renderItems] at hx hfuel
      simp only [List.length_append, List.length_cons] at hfuel
      simp only [List.append_assoc, List.cons_append] at hx
      have hy := readValue_render y h.1 level (fuel - 1) (by omega)
        (ends_renderItems hS level outer ys rest)
      have hys := readItems_render ys h.2 level outer hy (by omega)
      rw [show fuel - 1 + 1 = fuel by omega] at hys
      rw [readItems, hx, some_bind]
      dsimp only
      rw [skip_cons (by decide), expect_ne (by decide)]
      dsimp only
      rw [expect_self, some_bind, skip_spaces (hS.newline _),
        skip_render S h.1, hys]
      rfl

theorem readMembers_render (xs : Members) (h : plainMembers xs = true)
    (level outer : Nat) {fuel : Nat} (name : String) {x : Json}
    {rest : List Char} (hplain : plain x = true)
    (hx : readValue float fuel (render S level x ++
      (renderMembers S level xs ++ (S.newline outer ++ rbrace :: rest)))
        = some (x, renderMembers S level xs ++
          (S.newline outer ++ rbrace :: rest)))
    (hname : (quoted S name).length ≤ fuel + 1)
    (hfuel : (renderMembers S level xs).length ≤ fuel) :
    readMembers float (fuel + 1) (quoted S name ++ ':' :: (S.gap ++
      (render S level x ++ (renderMembers S level xs ++
        (S.newline outer ++ rbrace :: rest))))) = some ((name, x) :: xs, rest)
      := by
  rw [quoted_append, readMembers, expect_self, some_bind,
    readString_quoted hS hname, some_bind]
  dsimp only
  rw [skip_cons (by decide), expect_self, some_bind, skip_spaces hS.gap,
    skip_render S hplain, hx, some_bind]
  dsimp only
  match xs with
  | [] =>
      rw [renderMembers, List.nil_append, expect_close hS (by decide)]
      dsimp only
      rw [String.ofList_toList]
      rfl
  | (next, y) :: ys =>
      rw [plainMembers, Bool.and_eq_true] at h
      rw [renderMembers] at hfuel ⊢
      simp only [List.length_append, List.length_cons] at hfuel
      simp only [List.append_assoc, List.cons_append]
      have hy := readValue_render y h.1 level (fuel - 1) (by omega)
        (ends_renderMembers hS level outer ys rest)
      have hys := readMembers_render ys h.2 level outer next h.1 hy (by omega)
        (by omega)
      rw [show fuel - 1 + 1 = fuel by omega] at hys
      rw [skip_cons (by decide), expect_ne (by decide)]
      dsimp only
      rw [expect_self, some_bind, skip_spaces (hS.newline _), quoted_append,
        skip_cons (by decide), ← quoted_append, hys, String.ofList_toList]
      rfl

end

/-- The text of a value, and whitespace after it, is read back. -/
theorem loads_render {v : Json} (h : plain v = true) {spaces : List Char}
    (hspaces : ∀ c ∈ spaces, isWhitespace c = true) :
    loads float (render S 0 v ++ spaces) = some v := by
  have hend : Ends spaces := by
    rw [← List.append_nil spaces]
    refine ends_spaces hspaces ?_
    intro c tail hcons
    cases hcons
  have hrest : skip spaces = [] := by
    rw [← List.append_nil spaces, skip_spaces hspaces]
    rfl
  have hread := readValue_render float hS v h 0 _ (Nat.le_refl _) hend
  rw [← skip_render S h] at hread
  exact loads_of_fuel float hread hrest

end Legible

theorem plainMembers_iff {members : Members} :
    plainMembers members = true ↔ ∀ m ∈ members, plain m.2 = true := by
  induction members with
  | nil => simp
  | cons m members ih => simp [ih]

end

end SapioTee.Lib.JsonText
