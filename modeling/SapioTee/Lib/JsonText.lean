import Mathlib.Data.Nat.Digits.Lemmas
import SapioTee.Lib.Json
import SapioTee.Lib.Text

/-!
# The text of a JSON value

`render` is a printer with a style: where it breaks lines, what stands after
a colon and which characters it escapes. `indented` is the style of Python's
`json` with an indent of two spaces, where all but the printable part of
ASCII is escaped; `compact` is the style of serde's `to_string`, where only
what JSON asks for is. `loads` is Python's reader, with its three words
beyond the grammar. What a number with a fraction or an exponent is read as
and printed as is a parameter. In two things the reader is not Python's: an
escape that is half a surrogate pair, which Python takes for a character, is
none of ours, and no nesting is too deep for it.

The reader counts down a fuel, so that it is structurally recursive. What it
reads with any fuel it reads with one unit for each character it takes, so
the fuel of `loads` is never what stops it.
-/

namespace SapioTee.Lib.JsonText

/-! ## Writing -/

def quote : Char := '\x22'
def backslash : Char := '\x5c'
def lbrace : Char := '\x7b'
def rbrace : Char := '\x7d'

/-- The escapes of one letter, and what they stand for. -/
def letters : List (Char × Char) :=
  [(quote, quote), (backslash, backslash), ('b', '\x08'), ('f', '\x0c'),
    ('n', '\x0a'), ('r', '\x0d'), ('t', '\x09')]

/-- The four hexadecimal digits of a number below 65536. -/
def hex4 (n : Nat) : List Char :=
  [Nat.digitChar (n / 4096 % 16), Nat.digitChar (n / 256 % 16),
    Nat.digitChar (n / 16 % 16), Nat.digitChar (n % 16)]

/-- Python's `ensure_ascii`. -/
def escapeAscii (c : Char) : List Char :=
  match letters.find? fun l => l.2 == c with
  | some l => [backslash, l.1]
  | none =>
      if 32 ≤ c.toNat ∧ c.toNat ≤ 126 then [c]
      else if c.toNat < 0x10000 then backslash :: 'u' :: hex4 c.toNat
      else
        backslash :: 'u' :: hex4 (0xd800 + (c.toNat - 0x10000) / 1024) ++
          backslash :: 'u' :: hex4 (0xdc00 + (c.toNat - 0x10000) % 1024)

/-- The control characters only. -/
def escapeControl (c : Char) : List Char :=
  match letters.find? fun l => l.2 == c with
  | some l => [backslash, l.1]
  | none => if c.toNat < 32 then backslash :: 'u' :: hex4 c.toNat else [c]

structure Style where
  /-- What stands before an item or a closing bracket of a level. -/
  newline : Nat → List Char
  /-- What stands after a colon. -/
  gap : List Char
  escape : Char → List Char
  float : Rat → List Char

def indented (float : Rat → List Char) : Style where
  newline := fun level => '\n' :: List.replicate (2 * level) ' '
  gap := [' ']
  escape := escapeAscii
  float := float

def compact (float : Rat → List Char) : Style where
  newline := fun _ => []
  gap := []
  escape := escapeControl
  float := float

def intChars (n : Int) : List Char :=
  if n < 0 then '-' :: Nat.toDigits 10 n.natAbs else Nat.toDigits 10 n.natAbs

section

variable (S : Style)

def quoted (s : String) : List Char :=
  quote :: s.toList.flatMap S.escape ++ [quote]

mutual

def render (level : Nat) : Json → List Char
  | .null => "null".toList
  | .bool true => "true".toList
  | .bool false => "false".toList
  | .int n => intChars n
  | .float x => S.float x
  | .constant name => name.toList
  | .str s => quoted S s
  | .arr [] => ['[', ']']
  | .arr (x :: xs) =>
      '[' :: S.newline (level + 1) ++ render (level + 1) x ++
        renderItems (level + 1) xs ++ S.newline level ++ [']']
  | .obj [] => [lbrace, rbrace]
  | .obj ((name, x) :: xs) =>
      lbrace :: S.newline (level + 1) ++ quoted S name ++ ':' :: S.gap ++
        render (level + 1) x ++ renderMembers (level + 1) xs ++
          S.newline level ++ [rbrace]

/-- The items after the first. -/
def renderItems (level : Nat) : List Json → List Char
  | [] => []
  | x :: xs =>
      ',' :: S.newline level ++ render level x ++ renderItems level xs

/-- The members after the first. -/
def renderMembers (level : Nat) : List (String × Json) → List Char
  | [] => []
  | (name, x) :: xs =>
      ',' :: S.newline level ++ quoted S name ++ ':' :: S.gap ++
        render level x ++ renderMembers level xs

end

end

/-! ### How long a text is -/

theorem length_escapeControl (c : Char) : (escapeControl c).length ≤ 6 := by
  unfold escapeControl
  split
  · exact Nat.le_add_left 2 4
  · split
    · exact Nat.le_refl 6
    · exact Nat.le_add_left 1 5

theorem length_quoted_compact (float : Rat → List Char) (s : String) :
    (quoted (compact float) s).length ≤ 2 + 6 * s.toList.length := by
  have hchars : ∀ cs : List Char,
      (cs.flatMap escapeControl).length ≤ 6 * cs.length := by
    intro cs
    induction cs with
    | nil => exact Nat.le_refl 0
    | cons c cs ih =>
        have hc := length_escapeControl c
        rw [List.flatMap_cons, List.length_append, List.length_cons]
        omega
  have hs := hchars s.toList
  simp only [quoted, compact, List.length_append, List.length_cons,
    List.length_nil]
  omega

section

variable (float : Rat → List Char)

mutual

/-- The text of a value in the compact style is no longer than this. -/
def weight : Json → Nat
  | .null => 4
  | .bool _ => 5
  | .int n => (intChars n).length
  | .float x => (float x).length
  | .constant name => name.toList.length
  | .str s => 2 + 6 * s.toList.length
  | .arr items => 2 + weightItems items
  | .obj members => 2 + weightMembers members

def weightItems : List Json → Nat
  | [] => 0
  | x :: xs => 1 + weight x + weightItems xs

def weightMembers : List (String × Json) → Nat
  | [] => 0
  | (name, x) :: xs =>
      4 + 6 * name.toList.length + weight x + weightMembers xs

end

mutual

theorem length_render_le (level : Nat) (v : Json) :
    (render (compact float) level v).length ≤ weight float v := by
  cases v with
  | null => simp [render, weight]
  | bool b => cases b <;> simp [render, weight]
  | int n => simp [render, weight]
  | float x => simp [render, weight, compact]
  | constant name => simp [render, weight]
  | str s =>
      rw [render, weight]
      exact length_quoted_compact float s
  | arr items =>
      cases items with
      | nil => simp [render, weight]
      | cons x xs =>
          have hx := length_render_le (level + 1) x
          have hxs := length_renderItems_le (level + 1) xs
          simp only [render, weight, weightItems, compact,
            List.length_append, List.length_cons, List.length_nil]
            at hx hxs ⊢
          omega
  | obj members =>
      cases members with
      | nil => simp [render, weight]
      | cons m xs =>
          obtain ⟨name, x⟩ := m
          have hname := length_quoted_compact float name
          have hx := length_render_le (level + 1) x
          have hxs := length_renderMembers_le (level + 1) xs
          simp only [render, weight, weightMembers, compact,
            List.length_append, List.length_cons, List.length_nil]
            at hname hx hxs ⊢
          omega

theorem length_renderItems_le (level : Nat) (items : List Json) :
    (renderItems (compact float) level items).length
      ≤ weightItems float items := by
  cases items with
  | nil => simp [renderItems, weightItems]
  | cons x xs =>
      have hx := length_render_le level x
      have hxs := length_renderItems_le level xs
      simp only [renderItems, weightItems, compact, List.length_append,
        List.length_cons, List.length_nil] at hx hxs ⊢
      omega

theorem length_renderMembers_le (level : Nat)
    (members : List (String × Json)) :
    (renderMembers (compact float) level members).length
      ≤ weightMembers float members := by
  cases members with
  | nil => simp [renderMembers, weightMembers]
  | cons m xs =>
      obtain ⟨name, x⟩ := m
      have hname := length_quoted_compact float name
      have hx := length_render_le level x
      have hxs := length_renderMembers_le level xs
      simp only [renderMembers, weightMembers, compact, List.length_append,
        List.length_cons, List.length_nil] at hname hx hxs ⊢
      omega

end

end

/-! ## Reading -/

def isWhitespace (c : Char) : Bool :=
  c == ' ' || c == '\t' || c == '\n' || c == '\r'

def skip (cs : List Char) : List Char := cs.dropWhile isWhitespace

/-- The text after a character, if that one is next. -/
def expect (c : Char) : List Char → Option (List Char)
  | [] => none
  | d :: rest => if d = c then some rest else none

def readHex4 : List Char → Option (Nat × List Char)
  | a :: b :: c :: d :: rest => do
      let a ← hexValue a
      let b ← hexValue b
      let c ← hexValue c
      let d ← hexValue d
      pure (((a * 16 + b) * 16 + c) * 16 + d, rest)
  | _ => none

/-- What follows `\u`: one number, or the two of a pair. -/
def readUnicode (cs : List Char) : Option (Char × List Char) := do
  let (n, rest) ← readHex4 cs
  if 0xd800 ≤ n ∧ n ≤ 0xdbff then
    let rest ← expect backslash rest
    let rest ← expect 'u' rest
    let (m, rest) ← readHex4 rest
    if 0xdc00 ≤ m ∧ m ≤ 0xdfff then
      pure (Char.ofNat (0x10000 + (n - 0xd800) * 1024 + (m - 0xdc00)), rest)
    else none
  else if 0xdc00 ≤ n ∧ n ≤ 0xdfff then none
  else pure (Char.ofNat n, rest)

/-- One character of a string; a control character is none. -/
def readChar : List Char → Option (Char × List Char)
  | [] => none
  | c :: rest =>
      if c = backslash then
        match rest with
        | [] => none
        | e :: rest =>
            if e = 'u' then readUnicode rest
            else if e = '/' then some ('/', rest)
            else (letters.lookup e).map fun c => (c, rest)
      else if c.toNat < 32 then none
      else some (c, rest)

/-- The rest of a string, up to its closing quote. -/
def readString : Nat → List Char → Option (List Char × List Char)
  | 0, _ => none
  | _, [] => none
  | fuel + 1, c :: rest =>
      if c = quote then some ([], rest)
      else do
        let (c, rest) ← readChar (c :: rest)
        let (s, rest) ← readString fuel rest
        pure (c :: s, rest)

/-- The digits before a fraction: a zero stands alone. -/
def whole : List Char → Option (List Char × List Char)
  | [] => none
  | c :: rest =>
      if c = '0' then some (['0'], rest)
      else if c.isDigit then
        some ((c :: rest).takeWhile Char.isDigit,
          (c :: rest).dropWhile Char.isDigit)
      else none

/-- `(\.[0-9]+)?`. -/
def fraction : List Char → List Char × List Char
  | [] => ([], [])
  | c :: rest =>
      if c = '.' ∧ rest.takeWhile Char.isDigit ≠ [] then
        (c :: rest.takeWhile Char.isDigit, rest.dropWhile Char.isDigit)
      else ([], c :: rest)

def exponentSign : List Char → List Char × List Char
  | [] => ([], [])
  | c :: rest => if c = '+' ∨ c = '-' then ([c], rest) else ([], c :: rest)

/-- `([eE][-+]?[0-9]+)?`. -/
def exponent : List Char → List Char × List Char
  | [] => ([], [])
  | c :: rest =>
      let (sign, digits) := exponentSign rest
      if (c = 'e' ∨ c = 'E') ∧ digits.takeWhile Char.isDigit ≠ [] then
        (c :: sign ++ digits.takeWhile Char.isDigit,
          digits.dropWhile Char.isDigit)
      else ([], c :: rest)

/-- The digits of an integer Python reads or prints. -/
def maxDigits : Nat := 4300

section

variable (float : List Char → Json)

/-- A number after its sign. -/
def readUnsigned (sign : List Char) (cs : List Char) :
    Option (Json × List Char) := do
  let (digits, rest) ← whole cs
  let (frac, rest) := fraction rest
  let (exp, rest) := exponent rest
  if frac = [] ∧ exp = [] then
    if digits.length ≤ maxDigits then
      let n : Int := Nat.ofDigitChars 10 digits 0
      pure (.int (if sign = [] then n else -n), rest)
    else none
  else pure (float (sign ++ digits ++ frac ++ exp), rest)

def readNumber : List Char → Option (Json × List Char)
  | [] => none
  | c :: rest =>
      if c = '-' then readUnsigned float ['-'] rest
      else readUnsigned float [] (c :: rest)

def readWord (text : String) (v : Json) (cs : List Char) :
    Option (Json × List Char) :=
  if text.toList.isPrefixOf cs then some (v, cs.drop text.toList.length)
  else none

/-- A value that is neither a string nor made of others. -/
def readScalar (cs : List Char) : Option (Json × List Char) :=
  readWord "null" .null cs <|> readWord "true" (.bool true) cs <|>
    readWord "false" (.bool false) cs <|> readNumber float cs <|>
    readWord "NaN" (.constant "NaN") cs <|>
    readWord "Infinity" (.constant "Infinity") cs <|>
    readWord "-Infinity" (.constant "-Infinity") cs

mutual

def readValue : Nat → List Char → Option (Json × List Char)
  | 0, _ => none
  | _ + 1, [] => none
  | fuel + 1, c :: rest =>
      if c = quote then do
        let (s, rest) ← readString fuel rest
        pure (.str (String.ofList s), rest)
      else if c = '[' then
        match expect ']' (skip rest) with
        | some rest => some (.arr [], rest)
        | none => do
            let (items, rest) ← readItems fuel (skip rest)
            pure (.arr items, rest)
      else if c = lbrace then
        match expect rbrace (skip rest) with
        | some rest => some (.obj [], rest)
        | none => do
            let (members, rest) ← readMembers fuel (skip rest)
            pure (.obj members, rest)
      else readScalar float (c :: rest)

/-- The items of an array that has some. -/
def readItems : Nat → List Char → Option (List Json × List Char)
  | 0, _ => none
  | fuel + 1, cs => do
      let (x, rest) ← readValue fuel cs
      match expect ']' (skip rest) with
      | some rest => pure ([x], rest)
      | none => do
          let rest ← expect ',' (skip rest)
          let (xs, rest) ← readItems fuel (skip rest)
          pure (x :: xs, rest)

/-- The members of an object that has some. -/
def readMembers : Nat → List Char → Option (Members × List Char)
  | 0, _ => none
  | fuel + 1, cs => do
      let rest ← expect quote cs
      let (name, rest) ← readString fuel rest
      let rest ← expect ':' (skip rest)
      let (x, rest) ← readValue fuel (skip rest)
      match expect rbrace (skip rest) with
      | some rest => pure ([(String.ofList name, x)], rest)
      | none => do
          let rest ← expect ',' (skip rest)
          let (xs, rest) ← readMembers fuel (skip rest)
          pure ((String.ofList name, x) :: xs, rest)

end

/-- `json.loads`. -/
def loads (cs : List Char) : Option Json := do
  let (v, rest) ← readValue float (cs.length + 1) (skip cs)
  if skip rest = [] then pure v else none

end

/-! ## The fuel

A reader that has read something has a use for one unit of fuel for each
character it took, whatever fuel it was given. -/

theorem some_bind {α β : Type} (a : α) (f : α → Option β) :
    (some a >>= f) = f a :=
  rfl

theorem bind_some {α β : Type} {x : Option α} {f : α → Option β} {b : β}
    (h : (x >>= f) = some b) : ∃ a, x = some a ∧ f a = some b :=
  Option.bind_eq_some_iff.mp h

theorem pair_eq {α β : Type} {a x : α} {b y : β}
    (h : some (a, b) = some (x, y)) : a = x ∧ b = y :=
  Prod.mk.inj (Option.some.inj h)

theorem length_skip_le (cs : List Char) : (skip cs).length ≤ cs.length :=
  (List.dropWhile_suffix _).length_le

theorem expect_shorter {c : Char} {cs rest : List Char}
    (h : expect c cs = some rest) : rest.length < cs.length := by
  cases cs with
  | nil => cases h
  | cons d tail =>
      rw [expect] at h
      split at h
      · injection h with h
        rw [← h, List.length_cons]
        omega
      · cases h

theorem readHex4_shorter {cs rest : List Char} {n : Nat}
    (h : readHex4 cs = some (n, rest)) : rest.length < cs.length := by
  match cs, h with
  | a :: b :: c :: d :: tail, h =>
      obtain ⟨_, _, h⟩ := bind_some h
      obtain ⟨_, _, h⟩ := bind_some h
      obtain ⟨_, _, h⟩ := bind_some h
      obtain ⟨_, _, h⟩ := bind_some h
      obtain ⟨_, rfl⟩ := pair_eq h
      simp only [List.length_cons]
      omega
  | [], h => cases h
  | [_], h => cases h
  | [_, _], h => cases h
  | [_, _, _], h => cases h

theorem readUnicode_shorter {cs rest : List Char} {c : Char}
    (h : readUnicode cs = some (c, rest)) : rest.length < cs.length := by
  obtain ⟨⟨n, rest₁⟩, hhex, h⟩ := bind_some h
  have hlt := readHex4_shorter hhex
  dsimp only at h
  split at h
  · obtain ⟨rest₂, hslash, h⟩ := bind_some h
    obtain ⟨rest₃, hu, h⟩ := bind_some h
    obtain ⟨⟨m, rest₄⟩, hhex', h⟩ := bind_some h
    have hslash := expect_shorter hslash
    have hu := expect_shorter hu
    have hhex' := readHex4_shorter hhex'
    dsimp only at h
    split at h
    · obtain ⟨_, rfl⟩ := pair_eq h
      omega
    · cases h
  · split at h
    · cases h
    · obtain ⟨_, rfl⟩ := pair_eq h
      exact hlt

theorem readChar_shorter {cs rest : List Char} {c : Char}
    (h : readChar cs = some (c, rest)) : rest.length < cs.length := by
  match cs, h with
  | [], h => cases h
  | d :: tail, h =>
      change (if d = backslash then _ else _) = _ at h
      split at h
      · match tail, h with
        | [], h => cases h
        | e :: tail, h =>
            change (if e = 'u' then _ else _) = _ at h
            split at h
            · have hlt := readUnicode_shorter h
              simp only [List.length_cons]
              omega
            · split at h
              · obtain ⟨_, rfl⟩ := pair_eq h
                simp only [List.length_cons]
                omega
              · obtain ⟨_, _, h⟩ := Option.map_eq_some_iff.mp h
                injection h with _ h
                rw [← h]
                simp only [List.length_cons]
                omega
      · split at h
        · cases h
        · obtain ⟨_, rfl⟩ := pair_eq h
          rw [List.length_cons]
          omega

/-- A result that takes something, and for which the characters taken are
fuel enough. -/
def Taken {α : Type} (read : Nat → List Char → Option (α × List Char))
    (cs : List Char) (x : α) (rest : List Char) : Prop :=
  rest.length < cs.length ∧
    ∀ fuel, cs.length ≤ rest.length + fuel → read fuel cs = some (x, rest)

theorem taken_succ {α : Type}
    {read : Nat → List Char → Option (α × List Char)} {cs rest : List Char}
    {x : α} (hlt : rest.length < cs.length)
    (h : ∀ fuel, cs.length ≤ rest.length + fuel + 1 →
      read (fuel + 1) cs = some (x, rest)) : Taken read cs x rest := by
  refine ⟨hlt, ?_⟩
  intro fuel hfuel
  cases fuel with
  | zero => omega
  | succ fuel => exact h fuel hfuel

theorem readString_taken {fuel : Nat} {cs rest s : List Char}
    (h : readString fuel cs = some (s, rest)) :
    Taken readString cs s rest := by
  induction fuel generalizing cs rest s with
  | zero => cases h
  | succ fuel ih =>
      match cs, h with
      | [], h => cases h
      | c :: tail, h =>
          rw [readString] at h
          split at h
          · next hquote =>
              obtain ⟨rfl, rfl⟩ := pair_eq h
              refine taken_succ (by rw [List.length_cons]; omega) ?_
              intro n _
              rw [readString, if_pos hquote]
          · next hquote =>
              obtain ⟨⟨d, rest₁⟩, hchar, h⟩ := bind_some h
              obtain ⟨⟨s', rest₂⟩, hrest, h⟩ := bind_some h
              obtain ⟨rfl, rfl⟩ := pair_eq h
              obtain ⟨hlt', hread⟩ := ih hrest
              have hlt := readChar_shorter hchar
              refine taken_succ (by omega) ?_
              intro n hn
              rw [readString, if_neg hquote, hchar, some_bind]
              dsimp only
              rw [hread n (by omega)]
              rfl

theorem length_dropDigits_le (cs : List Char) :
    (cs.dropWhile Char.isDigit).length ≤ cs.length :=
  (List.dropWhile_suffix _).length_le

theorem whole_shorter {cs digits rest : List Char}
    (h : whole cs = some (digits, rest)) : rest.length < cs.length := by
  match cs, h with
  | [], h => cases h
  | c :: tail, h =>
      rw [whole] at h
      split at h
      · obtain ⟨_, rfl⟩ := pair_eq h
        rw [List.length_cons]
        omega
      · split at h
        · next hdigit =>
            obtain ⟨_, rfl⟩ := pair_eq h
            have hle := length_dropDigits_le tail
            rw [List.dropWhile_cons_of_pos hdigit, List.length_cons]
            omega
        · cases h

theorem length_fraction_le (cs : List Char) :
    (fraction cs).2.length ≤ cs.length := by
  cases cs with
  | nil => exact Nat.le_refl _
  | cons c tail =>
      have hle := length_dropDigits_le tail
      rw [fraction]
      split
      · dsimp only
        rw [List.length_cons]
        omega
      · exact Nat.le_refl _

theorem length_exponentSign_le (cs : List Char) :
    (exponentSign cs).2.length ≤ cs.length := by
  cases cs with
  | nil => exact Nat.le_refl _
  | cons c tail =>
      rw [exponentSign]
      split
      · exact Nat.le_succ _
      · exact Nat.le_refl _

theorem length_exponent_le (cs : List Char) :
    (exponent cs).2.length ≤ cs.length := by
  cases cs with
  | nil => exact Nat.le_refl _
  | cons c tail =>
      have hsign := length_exponentSign_le tail
      rw [exponent]
      dsimp only
      split
      · have hle := length_dropDigits_le (exponentSign tail).2
        dsimp only
        rw [List.length_cons]
        omega
      · exact Nat.le_refl _

theorem orElse_some {α : Type} {x y : Option α} {a : α}
    (h : (x <|> y) = some a) : x = some a ∨ y = some a := by
  cases x with
  | none => exact .inr h
  | some b => exact .inl h

section

variable (float : List Char → Json)

theorem readUnsigned_shorter {sign cs rest : List Char} {v : Json}
    (h : readUnsigned float sign cs = some (v, rest)) :
    rest.length < cs.length := by
  obtain ⟨⟨digits, rest₁⟩, hwhole, h⟩ := bind_some h
  have hwhole := whole_shorter hwhole
  have hfraction := length_fraction_le rest₁
  have hexponent := length_exponent_le (fraction rest₁).2
  dsimp only at h
  split at h
  · split at h
    · obtain ⟨_, rfl⟩ := pair_eq h
      omega
    · cases h
  · obtain ⟨_, rfl⟩ := pair_eq h
    omega

theorem readNumber_shorter {cs rest : List Char} {v : Json}
    (h : readNumber float cs = some (v, rest)) : rest.length < cs.length := by
  cases cs with
  | nil => cases h
  | cons c tail =>
      rw [readNumber] at h
      split at h
      · have hlt := readUnsigned_shorter float h
        rw [List.length_cons]
        omega
      · exact readUnsigned_shorter float h

theorem readWord_shorter {text : String} (htext : text.toList ≠ [])
    {v x : Json} {cs rest : List Char}
    (h : readWord text v cs = some (x, rest)) : rest.length < cs.length := by
  rw [readWord] at h
  split at h
  · next hlead =>
      obtain ⟨_, rfl⟩ := pair_eq h
      have hle := (List.isPrefixOf_iff_prefix.mp hlead).length_le
      have hpos := List.length_pos_iff.mpr htext
      rw [List.length_drop]
      omega
  · cases h

theorem readScalar_shorter {cs rest : List Char} {v : Json}
    (h : readScalar float cs = some (v, rest)) : rest.length < cs.length := by
  rcases orElse_some h with h | h
  · exact readWord_shorter (by decide) h
  rcases orElse_some h with h | h
  · exact readWord_shorter (by decide) h
  rcases orElse_some h with h | h
  · exact readWord_shorter (by decide) h
  rcases orElse_some h with h | h
  · exact readNumber_shorter float h
  rcases orElse_some h with h | h
  · exact readWord_shorter (by decide) h
  rcases orElse_some h with h | h
  · exact readWord_shorter (by decide) h
  · exact readWord_shorter (by decide) h

/-- What the three readers keep: a result takes its characters and no more
fuel than that. -/
structure Frugal (fuel : Nat) : Prop where
  value : ∀ {cs rest : List Char} {x : Json},
    readValue float fuel cs = some (x, rest) →
      Taken (readValue float) cs x rest
  items : ∀ {cs rest : List Char} {xs : List Json},
    readItems float fuel cs = some (xs, rest) →
      Taken (readItems float) cs xs rest
  members : ∀ {cs rest : List Char} {xs : Members},
    readMembers float fuel cs = some (xs, rest) →
      Taken (readMembers float) cs xs rest

theorem Frugal.value_step {fuel : Nat} (ih : Frugal float fuel)
    {cs rest : List Char} {x : Json}
    (h : readValue float (fuel + 1) cs = some (x, rest)) :
    Taken (readValue float) cs x rest := by
  match cs, h with
  | [], h => cases h
  | c :: tail, h =>
      have hskip := length_skip_le tail
      rw [readValue] at h
      split at h
      · next hquote =>
          obtain ⟨⟨s, rest₁⟩, hstring, h⟩ := bind_some h
          obtain ⟨rfl, rfl⟩ := pair_eq h
          obtain ⟨hlt, hread⟩ := readString_taken hstring
          refine taken_succ (by rw [List.length_cons]; omega) ?_
          intro n hn
          rw [List.length_cons] at hn
          rw [readValue, if_pos hquote, hread n (by omega)]
          rfl
      · next hquote =>
          split at h
          · next harr =>
              split at h
              · next rest₁ hclose =>
                  obtain ⟨rfl, rfl⟩ := pair_eq h
                  have hlt := expect_shorter hclose
                  refine taken_succ (by rw [List.length_cons]; omega) ?_
                  intro n _
                  rw [readValue, if_neg hquote, if_pos harr, hclose]
              · next hopen =>
                  obtain ⟨⟨items, rest₁⟩, hitems, h⟩ := bind_some h
                  obtain ⟨rfl, rfl⟩ := pair_eq h
                  obtain ⟨hlt, hread⟩ := ih.items hitems
                  refine taken_succ (by rw [List.length_cons]; omega) ?_
                  intro n hn
                  rw [List.length_cons] at hn
                  rw [readValue, if_neg hquote, if_pos harr, hopen]
                  dsimp only
                  rw [hread n (by omega)]
                  rfl
          · next harr =>
              split at h
              · next hobj =>
                  split at h
                  · next rest₁ hclose =>
                      obtain ⟨rfl, rfl⟩ := pair_eq h
                      have hlt := expect_shorter hclose
                      refine taken_succ (by rw [List.length_cons]; omega) ?_
                      intro n _
                      rw [readValue, if_neg hquote, if_neg harr, if_pos hobj,
                        hclose]
                  · next hopen =>
                      obtain ⟨⟨members, rest₁⟩, hmembers, h⟩ := bind_some h
                      obtain ⟨rfl, rfl⟩ := pair_eq h
                      obtain ⟨hlt, hread⟩ := ih.members hmembers
                      refine taken_succ (by rw [List.length_cons]; omega) ?_
                      intro n hn
                      rw [List.length_cons] at hn
                      rw [readValue, if_neg hquote, if_neg harr, if_pos hobj,
                        hopen]
                      dsimp only
                      rw [hread n (by omega)]
                      rfl
              · next hobj =>
                  refine taken_succ (readScalar_shorter float h) ?_
                  intro n _
                  rw [readValue, if_neg hquote, if_neg harr, if_neg hobj, h]

theorem Frugal.items_step {fuel : Nat} (ih : Frugal float fuel)
    {cs rest : List Char} {xs : List Json}
    (h : readItems float (fuel + 1) cs = some (xs, rest)) :
    Taken (readItems float) cs xs rest := by
  rw [readItems] at h
  obtain ⟨⟨x, rest₁⟩, hvalue, h⟩ := bind_some h
  obtain ⟨hlt, hread⟩ := ih.value hvalue
  have hskip := length_skip_le rest₁
  dsimp only at h
  split at h
  · next rest₂ hclose =>
      obtain ⟨rfl, rfl⟩ := pair_eq h
      have hclosed := expect_shorter hclose
      refine taken_succ (by omega) ?_
      intro n hn
      rw [readItems, hread n (by omega), some_bind]
      dsimp only
      rw [hclose]
      rfl
  · next hopen =>
      obtain ⟨rest₂, hcomma, h⟩ := bind_some h
      obtain ⟨⟨xs, rest₃⟩, hitems, h⟩ := bind_some h
      dsimp only at h
      obtain ⟨rfl, rfl⟩ := pair_eq h
      obtain ⟨hlt', hread'⟩ := ih.items hitems
      have htaken := expect_shorter hcomma
      have hskip' := length_skip_le rest₂
      refine taken_succ (by omega) ?_
      intro n hn
      rw [readItems, hread n (by omega), some_bind]
      dsimp only
      rw [hopen]
      dsimp only
      rw [hcomma, some_bind, hread' n (by omega)]
      rfl

theorem Frugal.members_step {fuel : Nat} (ih : Frugal float fuel)
    {cs rest : List Char} {xs : Members}
    (h : readMembers float (fuel + 1) cs = some (xs, rest)) :
    Taken (readMembers float) cs xs rest := by
  rw [readMembers] at h
  obtain ⟨rest₁, hquote, h⟩ := bind_some h
  obtain ⟨⟨name, rest₂⟩, hname, h⟩ := bind_some h
  obtain ⟨rest₃, hcolon, h⟩ := bind_some h
  obtain ⟨⟨x, rest₄⟩, hvalue, h⟩ := bind_some h
  obtain ⟨hlt, hread⟩ := readString_taken hname
  obtain ⟨hlt', hread'⟩ := ih.value hvalue
  have hquoted := expect_shorter hquote
  have hcoloned := expect_shorter hcolon
  have hskip₂ := length_skip_le rest₂
  have hskip₃ := length_skip_le rest₃
  have hskip₄ := length_skip_le rest₄
  dsimp only at h
  split at h
  · next rest₅ hclose =>
      obtain ⟨rfl, rfl⟩ := pair_eq h
      have hclosed := expect_shorter hclose
      refine taken_succ (by omega) ?_
      intro n hn
      rw [readMembers, hquote, some_bind, hread n (by omega), some_bind]
      dsimp only
      rw [hcolon, some_bind, hread' n (by omega), some_bind]
      dsimp only
      rw [hclose]
      rfl
  · next hopen =>
      obtain ⟨rest₅, hcomma, h⟩ := bind_some h
      obtain ⟨⟨xs, rest₆⟩, hmembers, h⟩ := bind_some h
      dsimp only at h
      obtain ⟨rfl, rfl⟩ := pair_eq h
      obtain ⟨hlt'', hread''⟩ := ih.members hmembers
      have htaken := expect_shorter hcomma
      have hskip₅ := length_skip_le rest₅
      refine taken_succ (by omega) ?_
      intro n hn
      rw [readMembers, hquote, some_bind, hread n (by omega), some_bind]
      dsimp only
      rw [hcolon, some_bind, hread' n (by omega), some_bind]
      dsimp only
      rw [hopen]
      dsimp only
      rw [hcomma, some_bind, hread'' n (by omega)]
      rfl

theorem frugal (fuel : Nat) : Frugal float fuel := by
  induction fuel with
  | zero =>
      refine ⟨?_, ?_, ?_⟩
      · intro cs rest x h
        cases h
      · intro cs rest xs h
        cases h
      · intro cs rest xs h
        cases h
  | succ fuel ih => exact ⟨ih.value_step, ih.items_step, ih.members_step⟩

/-- The fuel of `loads` is enough: what any fuel reads, `loads` reads. -/
theorem loads_of_fuel {fuel : Nat} {cs rest : List Char} {v : Json}
    (h : readValue float fuel (skip cs) = some (v, rest))
    (hrest : skip rest = []) : loads float cs = some v := by
  obtain ⟨_, hread⟩ := (frugal float fuel).value h
  have hskip := length_skip_le cs
  rw [loads, hread (cs.length + 1) (by omega), some_bind]
  exact if_pos hrest

end

end SapioTee.Lib.JsonText
