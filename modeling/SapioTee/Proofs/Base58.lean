import SapioTee.Model.Verifier

/-!
# Base58Check read back (`scripts/verify-attestation.py`)

The decoder reads the whole text as one number in base 58 and counts the
ones in front apart from it; the encoder of the tests takes the number apart
again and puts a one in front for each zero byte. Both are the same list of
digits: a number has one list of digits that does not start with zero and
one byte string that does not, and the leading ones and the leading zero
bytes are counted, not read.
-/

namespace SapioTee

open Lib

/-! ## A text of an encoding is read back -/

/-- The loop over the digits of a number reads the number. -/
theorem foldlM_base58Value (digits : List Nat) (hlt : ∀ d ∈ digits, d < 58)
    (n : Nat) :
    (digits.map base58Char).foldlM Verifier.base58Value n
      = .ok (digits.foldl (fun n d => n * 58 + d) n) := by
  induction digits generalizing n with
  | nil => rfl
  | cons d ds ih =>
      rw [List.map_cons, List.foldlM_cons, Verifier.base58Value,
        idxOf?_base58Char (hlt d List.mem_cons_self), List.foldl_cons]
      exact ih (fun e he => hlt e (List.mem_cons_of_mem _ he)) _

theorem foldlM_ones (k : Nat) :
    (List.replicate k '1').foldlM Verifier.base58Value 0 = .ok 0 := by
  induction k with
  | zero => rfl
  | succ k ih =>
      rw [List.replicate_succ, List.foldlM_cons]
      exact ih

theorem foldlM_base58Chars (bs : Bytes) :
    (base58Chars bs).foldlM Verifier.base58Value 0 = .ok (beNat bs) := by
  have hlt : ∀ d ∈ (Nat.digits 58 (beNat bs)).reverse, d < 58 := by
    intro d hd
    exact Nat.digits_lt_base (by decide) (List.mem_reverse.mp hd)
  rw [base58Chars, List.foldlM_append, foldlM_ones, ok_bind, base58Number,
    foldlM_base58Value _ hlt, foldl_digits, Nat.ofDigits_digits]

theorem leadingOnes_base58Chars (bs : Bytes) :
    (base58Chars bs).length - ((base58Chars bs).dropWhile (· == '1')).length
      = (bs.takeWhile (· == 0)).length := by
  rw [dropWhile_base58Chars, base58Chars, List.length_append,
    List.length_replicate, Nat.add_sub_cancel]

theorem nonemptyStr_ofList {cs : List Char} (h : cs ≠ []) :
    nonemptyStr (.str (String.ofList cs)) = true := by
  rw [nonemptyStr]
  apply bne_iff_ne.mpr
  intro hempty
  exact h (String.ofList_injective hempty)

theorem length_checksum (sha256 : Bytes → Hash) (payload : Bytes) :
    (checksum sha256 payload).length = 4 := by
  rw [checksum, List.length_take, Vector.length_toList]
  rfl

theorem base58checkDecode_check {T : Types} (V : VerifierCrates T)
    {payload : Bytes} (hlen : payload.length = 78) :
    Verifier.base58checkDecode V (.str (base58Check V.sha256 payload))
      = .ok payload := by
  have hsum := length_checksum V.sha256 payload
  have hne : payload ++ checksum V.sha256 payload ≠ [] := by
    intro hnil
    have := congrArg List.length hnil
    rw [List.length_append, hlen, hsum] at this
    cases this
  rw [Verifier.base58checkDecode, base58Check,
    nonemptyStr_ofList (base58Chars_ne_nil hne)]
  simp only [Json.str?, Option.getD_some, String.toList_ofList,
    require_true, ok_bind, foldlM_base58Chars, leadingOnes_base58Chars,
    replicate_append_beBytes]
  rw [List.length_append, hlen, hsum, List.take_left' hlen,
    List.drop_left' hlen]
  show (require (checksum V.sha256 payload == checksum V.sha256 payload) _
    >>= fun _ => _) = _
  rw [beq_self_eq_true]
  rfl

/-! ## A text that is read is an encoding -/

theorem foldlM_base58Value_ok {chars : List Char} {n m : Nat}
    (h : chars.foldlM Verifier.base58Value n = .ok m) :
    ∃ digits : List Nat, (∀ d ∈ digits, d < 58) ∧
      chars = digits.map base58Char ∧
      m = digits.foldl (fun n d => n * 58 + d) n := by
  induction chars generalizing n with
  | nil =>
      injection h with h
      exact ⟨[], List.forall_mem_nil _, rfl, h.symm⟩
  | cons c cs ih =>
      rw [List.foldlM_cons] at h
      obtain ⟨next, hnext, h⟩ := bind_ok h
      obtain ⟨d, hd, hnext⟩ := bind_ok hnext
      injection hnext with hnext
      subst hnext
      obtain ⟨hlt, hchar⟩ := base58Char_of_idxOf? (present_ok hd)
      obtain ⟨ds, hds, rfl, rfl⟩ := ih h
      refine ⟨d :: ds, ?_, ?_, rfl⟩
      · intro e he
        rcases List.mem_cons.mp he with rfl | he
        · exact hlt
        · exact hds e he
      · rw [List.map_cons, hchar]

theorem takeWhile_ones (chars : List Char) :
    chars.takeWhile (· == '1') = List.replicate
      (chars.length - (chars.dropWhile (· == '1')).length) '1' := by
  have hlength : (chars.takeWhile (· == '1')).length
      = chars.length - (chars.dropWhile (· == '1')).length := by
    have hsplit := congrArg List.length
      (@List.takeWhile_append_dropWhile _ (· == '1') chars)
    rw [List.length_append] at hsplit
    omega
  rw [← hlength]
  apply List.eq_replicate_length.mpr
  intro c hc
  exact eq_of_beq (List.all_eq_true.mp List.all_takeWhile c hc)

/-- A text over the alphabet is the encoding of one byte string: a zero byte
for each one in front, then the bytes of the number. -/
theorem base58Chars_of_number {chars : List Char} {n : Nat}
    (h : chars.foldlM Verifier.base58Value 0 = .ok n) :
    base58Chars (List.replicate
      (chars.length - (chars.dropWhile (· == '1')).length) 0 ++ beBytes n)
      = chars := by
  have hsplit : chars.takeWhile (· == '1') ++ chars.dropWhile (· == '1')
      = chars := List.takeWhile_append_dropWhile
  have hnumber : (chars.dropWhile (· == '1')).foldlM Verifier.base58Value 0
      = .ok n := by
    rw [← hsplit, List.foldlM_append, takeWhile_ones, foldlM_ones] at h
    exact h
  obtain ⟨digits, hlt, hchars, rfl⟩ := foldlM_base58Value_ok hnumber
  have hhead : digits.head? ≠ some 0 := by
    intro hzero
    have hnot := List.head?_dropWhile_not (· == '1') chars
    rw [hchars, List.head?_map, hzero] at hnot
    cases hnot
  rw [base58Chars_replicate_append, base58Number_foldl hlt hhead, ← hchars,
    ← takeWhile_ones, hsplit]

theorem base58checkDecode_ok {T : Types} (V : VerifierCrates T) {value : Json}
    {payload : Bytes}
    (h : Verifier.base58checkDecode V value = .ok payload) :
    payload.length = 78 ∧ value = .str (base58Check V.sha256 payload) := by
  obtain ⟨_, hstr, h⟩ := bind_ok h
  obtain ⟨number, hnumber, h⟩ := bind_ok h
  obtain ⟨_, hlength, h⟩ := bind_ok h
  obtain ⟨_, hsum, h⟩ := bind_ok h
  injection h with h
  have hlength := beq_iff_eq.mp (require_ok hlength)
  have hsum := beq_iff_eq.mp (require_ok hsum)
  have hchars := base58Chars_of_number hnumber
  rw [h] at hsum
  have hdecoded := List.take_append_drop 78 (List.replicate
    ((value.str?.getD "").toList.length -
      ((value.str?.getD "").toList.dropWhile (· == '1')).length) 0 ++
    beBytes number)
  rw [h, ← hsum] at hdecoded
  refine ⟨?_, ?_⟩
  · rw [← h, List.length_take, hlength]
    rfl
  · cases value with
    | str s =>
        rw [base58Check, hdecoded, hchars]
        exact congrArg Json.str String.ofList_toList.symm
    | _ => cases require_ok hstr

/-! ## The encoder of the tests -/

theorem encodeNumber_eq (number : Nat) (encoded : List Char) :
    Verifier.encodeNumber number encoded = base58Number number ++ encoded := by
  induction number, encoded using Verifier.encodeNumber.induct with
  | case1 encoded =>
      rw [Verifier.encodeNumber, if_pos rfl, base58Number, Nat.digits_zero]
      rfl
  | case2 number encoded hne ih =>
      have hdigits := Nat.digits_def' (by decide : 1 < 58)
        (Nat.pos_of_ne_zero hne)
      rw [Verifier.encodeNumber, if_neg hne, ih, base58Number, base58Number,
        hdigits, List.reverse_cons, List.map_append, List.append_assoc]
      rfl

theorem encodeZeros_eq (decoded : Bytes) (encoded : List Char) :
    Verifier.encodeZeros decoded encoded
      = List.replicate (decoded.takeWhile (· == 0)).length '1' ++ encoded := by
  induction decoded generalizing encoded with
  | nil => rfl
  | cons byte rest ih =>
      rw [Verifier.encodeZeros]
      by_cases hzero : byte = 0
      · rw [if_neg (by simp [hzero]), ih, List.takeWhile_cons_of_pos
          (by simp [hzero]), List.length_cons, List.replicate_succ',
          List.append_assoc]
        rfl
      · rw [if_pos (by simp [hzero]), List.takeWhile_cons_of_neg
          (by simp [hzero])]
        rfl

theorem base58checkEncode_eq {T : Types} (V : VerifierCrates T)
    (payload : Bytes) :
    Verifier.base58checkEncode V payload = base58Check V.sha256 payload := by
  rw [Verifier.base58checkEncode, base58Check, encodeNumber_eq, encodeZeros_eq,
    List.append_nil, base58Chars]

/-! ## The decoder is the inverse -/

section

variable {T : Types} (V : VerifierCrates T)

def Refuses (chars : List Char) : Prop :=
  ∃ text, Verifier.base58checkDecode V (.str (String.ofList chars))
    = .error (.message text)

theorem base58checkDecode_describes (value : Json) :
    Describes (Verifier.base58checkDecode V value) := by
  have hvalue : ∀ n c, Describes (Verifier.base58Value n c) := by
    intro n c
    exact (describes_present _ _).bind fun index => describes_pure _
  refine (describes_require _ _).bind fun _ => ?_
  refine (Describes.foldlM hvalue _ _).bind fun number => ?_
  refine (describes_require _ _).bind fun _ => ?_
  refine (describes_require _ _).bind fun _ => ?_
  exact describes_pure _

theorem refuses_of_ne {chars : List Char}
    (h : ∀ payload : Bytes, payload.length = 78 →
      chars ≠ base58Chars (payload ++ checksum V.sha256 payload)) :
    Refuses V chars := by
  cases hresult : Verifier.base58checkDecode V (.str (String.ofList chars)) with
  | ok payload =>
      obtain ⟨hlength, heq⟩ := base58checkDecode_ok V hresult
      injection heq with heq
      exact absurd (String.ofList_injective heq) (h payload hlength)
  | error error =>
      obtain ⟨text, rfl⟩ := base58checkDecode_describes V _ error hresult
      exact ⟨text, hresult⟩

/-- A byte string is read off its encoding. -/
theorem base58Chars_inj {as bs : Bytes} (h : base58Chars as = base58Chars bs) :
    as = bs := by
  have hones := leadingOnes_base58Chars as
  rw [h, leadingOnes_base58Chars] at hones
  have hnumber := foldlM_base58Chars as
  rw [h, foldlM_base58Chars] at hnumber
  injection hnumber with hnumber
  rw [← replicate_append_beBytes as, ← replicate_append_beBytes bs, hones,
    hnumber]

/-- An encoding is refused where its bytes are no payload and checksum. -/
theorem refuses_base58Chars {decoded : Bytes}
    (h : ∀ payload : Bytes, payload.length = 78 →
      decoded ≠ payload ++ checksum V.sha256 payload) :
    Refuses V (base58Chars decoded) := by
  apply refuses_of_ne
  intro payload hlength heq
  exact h payload hlength (base58Chars_inj heq)

theorem refuses_foreign {chars : List Char}
    (h : ∃ c ∈ chars, c ∉ base58Alphabet) : Refuses V chars := by
  obtain ⟨c, hc, hforeign⟩ := h
  apply refuses_of_ne
  intro payload _ heq
  rw [heq] at hc
  exact hforeign (mem_base58Chars hc)

theorem refuses_length {decoded : Bytes} (h : decoded.length ≠ 82) :
    Refuses V (base58Chars decoded) := by
  apply refuses_base58Chars
  intro payload hlength heq
  apply h
  rw [heq, List.length_append, hlength, length_checksum]

theorem refuses_checksum {payload sum : Bytes} (hlength : payload.length = 78)
    (h : sum ≠ checksum V.sha256 payload) :
    Refuses V (base58Chars (payload ++ sum)) := by
  apply refuses_base58Chars
  intro other hother heq
  obtain ⟨hsame, hsum⟩ := List.append_inj heq (hlength.trans hother.symm)
  rw [← hsame] at hsum
  exact h hsum

/-- A one too many or too few changes the length. -/
theorem refuses_ones {decoded : Bytes} {ones : Nat}
    (hlength : decoded.length = 82)
    (h : ones ≠ (decoded.takeWhile (· == 0)).length) :
    Refuses V (List.replicate ones '1' ++ base58Number (beNat decoded)) := by
  rw [← base58Chars_replicate_append]
  apply refuses_length
  intro hones
  have hsame := congrArg List.length (replicate_append_beBytes decoded)
  rw [List.length_append, List.length_replicate] at hones hsame
  omega

/-- `base58check_decode` is the inverse of `base58check_encode` on payloads
of 78 bytes, and defined on nothing else. -/
theorem base58checkDecode_exact :
    (∀ payload : Bytes, payload.length = 78 →
      Verifier.base58checkDecode V (.str (Verifier.base58checkEncode V payload))
        = .ok payload) ∧
    (∀ s payload, Verifier.base58checkDecode V (.str s) = .ok payload →
      payload.length = 78 ∧ s = Verifier.base58checkEncode V payload) ∧
    (∀ s t payload, Verifier.base58checkDecode V (.str s) = .ok payload →
      Verifier.base58checkDecode V (.str t) = .ok payload → s = t) ∧
    (∀ chars, (∃ c ∈ chars, c ∉ base58Alphabet) → Refuses V chars) ∧
    (∀ (decoded : Bytes) (ones : Nat), decoded.length = 82 →
      ones ≠ (decoded.takeWhile (· == 0)).length →
      Refuses V (List.replicate ones '1' ++ base58Number (beNat decoded))) ∧
    (∀ decoded : Bytes, decoded.length ≠ 82 →
      Refuses V (base58Chars decoded)) ∧
    (∀ payload sum : Bytes, payload.length = 78 →
      sum ≠ checksum V.sha256 payload →
      Refuses V (base58Chars (payload ++ sum))) := by
  have haccepted : ∀ s payload,
      Verifier.base58checkDecode V (.str s) = .ok payload →
      payload.length = 78 ∧ s = Verifier.base58checkEncode V payload := by
    intro s payload h
    obtain ⟨hlength, heq⟩ := base58checkDecode_ok V h
    injection heq with heq
    rw [base58checkEncode_eq]
    exact ⟨hlength, heq⟩
  refine ⟨?_, haccepted, ?_, ?_, ?_, ?_, ?_⟩
  · intro payload hlength
    rw [base58checkEncode_eq]
    exact base58checkDecode_check V hlength
  · intro s t payload hs ht
    rw [(haccepted s payload hs).2, (haccepted t payload ht).2]
  · intro chars h
    exact refuses_foreign V h
  · intro decoded ones hlength h
    exact refuses_ones V hlength h
  · intro decoded h
    exact refuses_length V h
  · intro payload sum hlength h
    exact refuses_checksum V hlength h

end

end SapioTee
