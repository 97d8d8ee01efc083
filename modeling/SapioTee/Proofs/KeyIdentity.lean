import Mathlib.Data.Set.Function
import SapioTee.Lib.Text
import SapioTee.Model.Symbolic

/-!
# What a key ARN and a settings record pin down (`src/keys.rs`)

`keyRegion` takes a key ARN apart field by field. `KeyArn.Canonical` says in
one piece what it lets through: a listed region, twelve digits, and one of
two spellings of a key, in one order with nothing between. The parser is
followed on bytes, where the colons are; a text it accepts is ASCII, so the
bytes of the three parts are three texts again.

The info string of the root is its fields joined with nothing between. The
ARN is the one field without a width of its own, and everything after it has
one, so the fields come off the end one at a time.
-/

namespace SapioTee

open Lib

/-! ## Canonical key ARNs -/

structure KeyArn where
  region : String
  account : String
  key : String

def KeyArn.text (arn : KeyArn) : String :=
  "arn:aws:kms:" ++ arn.region ++ ":" ++ arn.account ++ ":key/" ++ arn.key

def IsHex (width : Nat) (text : String) : Prop :=
  text.toList.length = width ∧ ∀ c ∈ text.toList, c ∈ hexAlphabet

/-- `mrk-` and thirty-two lowercase hexadecimal digits. -/
def IsMultiRegionKey (key : String) : Prop :=
  ∃ id, key = "mrk-" ++ id ∧ IsHex 32 id

/-- A lowercase UUID. -/
def IsUuid (key : String) : Prop :=
  ∃ a b c d e, key = a ++ "-" ++ b ++ "-" ++ c ++ "-" ++ d ++ "-" ++ e ∧
    IsHex 8 a ∧ IsHex 4 b ∧ IsHex 4 c ∧ IsHex 4 d ∧ IsHex 12 e

structure KeyArn.Canonical (arn : KeyArn) : Prop where
  region : arn.region ∈ kmsRegions
  account : arn.account.toList.length = 12 ∧
    ∀ c ∈ arn.account.toList, c.isDigit = true
  key : IsMultiRegionKey arn.key ∨ IsUuid arn.key

/-! ## The two spellings of a key, in bytes -/

def HexBytes (width : Nat) (bs : Bytes) : Prop :=
  bs.length = width ∧ bs.all lowercaseHex = true

/-- The bytes of a UUID between its dashes. -/
theorem all_uuidByte {bs : Bytes} {offset : Nat}
    (h : ∀ i < bs.length, ¬(offset + i = 8 ∨ offset + i = 13 ∨
      offset + i = 18 ∨ offset + i = 23)) :
    ((bs.zipIdx offset).all fun entry => uuidByte entry.1 entry.2)
      = bs.all lowercaseHex := by
  induction bs generalizing offset with
  | nil => rfl
  | cons b bs ih =>
      have hhead := h 0 (by simp)
      rw [Nat.add_zero] at hhead
      have htail : ∀ i < bs.length, ¬(offset + 1 + i = 8 ∨
          offset + 1 + i = 13 ∨ offset + 1 + i = 18 ∨
          offset + 1 + i = 23) := by
        intro i hi
        have := h (i + 1) (by rw [List.length_cons]; omega)
        omega
      rw [List.zipIdx_cons, List.all_cons, ih htail, List.all_cons]
      dsimp only
      rw [uuidByte, if_neg hhead]

theorem uuidByte_dash {b : UInt8} {i : Nat}
    (h : i = 8 ∨ i = 13 ∨ i = 18 ∨ i = 23) :
    uuidByte b i = true ↔ b = 45 := by
  rw [uuidByte, if_pos h, beq_iff_eq]

/-- The text of a UUID is its five groups with dashes between. -/
theorem all_zipIdx_uuid {a b c d e : Bytes} {w x y z : UInt8}
    (ha : a.length = 8) (hb : b.length = 4) (hc : c.length = 4)
    (hd : d.length = 4) (he : e.length = 12) :
    ((a ++ w :: (b ++ x :: (c ++ y :: (d ++ z :: e)))).zipIdx.all fun entry =>
        uuidByte entry.1 entry.2) = true ↔
      (w = 45 ∧ x = 45 ∧ y = 45 ∧ z = 45) ∧ a.all lowercaseHex = true ∧
        b.all lowercaseHex = true ∧ c.all lowercaseHex = true ∧
        d.all lowercaseHex = true ∧ e.all lowercaseHex = true := by
  simp only [List.zipIdx_append, List.zipIdx_cons, List.all_append,
    List.all_cons, ha, hb, hc, hd, Bool.and_eq_true]
  rw [all_uuidByte (by rw [ha]; omega), all_uuidByte (by rw [hb]; omega),
    all_uuidByte (by rw [hc]; omega), all_uuidByte (by rw [hd]; omega),
    all_uuidByte (by rw [he]; omega), uuidByte_dash (by omega),
    uuidByte_dash (by omega), uuidByte_dash (by omega),
    uuidByte_dash (by omega)]
  refine ⟨?_, ?_⟩
  · intro h
    obtain ⟨hga, hw, hgb, hx, hgc, hy, hgd, hz, hge⟩ := h
    exact ⟨⟨hw, hx, hy, hz⟩, hga, hgb, hgc, hgd, hge⟩
  · intro h
    obtain ⟨⟨hw, hx, hy, hz⟩, hga, hgb, hgc, hgd, hge⟩ := h
    exact ⟨hga, hw, hgb, hx, hgc, hy, hgd, hz, hge⟩

/-- One byte of a list, with what stands on either side of it. -/
theorem exists_cut {bs : Bytes} {m n : Nat} (h : bs.length = m + n + 1) :
    ∃ as b cs, bs = as ++ b :: cs ∧ as.length = m ∧ cs.length = n := by
  have hlt : m < bs.length := by omega
  refine ⟨bs.take m, bs[m], bs.drop (m + 1), ?_, ?_, ?_⟩
  · rw [← List.drop_eq_getElem_cons hlt, List.take_append_drop]
  · rw [List.length_take]
    omega
  · rw [List.length_drop]
    omega

def MultiRegionBytes (key : Bytes) : Prop :=
  ∃ id, key = ascii "mrk-" ++ id ∧ HexBytes 32 id

def UuidBytes (key : Bytes) : Prop :=
  ∃ a b c d e, key = a ++ 45 :: (b ++ 45 :: (c ++ 45 :: (d ++ 45 :: e))) ∧
    HexBytes 8 a ∧ HexBytes 4 b ∧ HexBytes 4 c ∧ HexBytes 4 d ∧ HexBytes 12 e

/-- A UUID does not start as a multi-Region key does: `m` is no digit. -/
theorem UuidBytes.stripLead_none {key : Bytes} (h : UuidBytes key) :
    stripLead (ascii "mrk-") key = none := by
  obtain ⟨a, b, c, d, e, rfl, ⟨hlength, hhex⟩, -⟩ := h
  cases a with
  | nil => cases hlength
  | cons first a =>
      rw [List.all_cons, Bool.and_eq_true] at hhex
      apply Lib.stripLead_none
      intro hlead
      obtain ⟨rest, hrest⟩ := hlead
      injection hrest with hfirst
      rw [← hfirst] at hhex
      exact absurd hhex.1 (by decide)

theorem validKey_iff {key : Bytes} :
    validKey key = true ↔ MultiRegionBytes key ∨ UuidBytes key := by
  refine ⟨?_, ?_⟩
  · intro h
    unfold validKey at h
    split at h
    next id hid =>
      rw [Bool.and_eq_true] at h
      exact .inl ⟨id, stripLead_some hid, beq_iff_eq.mp h.1, h.2⟩
    next =>
      rw [Bool.and_eq_true] at h
      obtain ⟨hlength, hbytes⟩ := h
      have hlength : key.length = 8 + 27 + 1 := beq_iff_eq.mp hlength
      obtain ⟨a, w, rest, rfl, ha, hrest⟩ := exists_cut hlength
      obtain ⟨b, x, rest, rfl, hb, hrest⟩ :=
        exists_cut (show rest.length = 4 + 22 + 1 from hrest)
      obtain ⟨c, y, rest, rfl, hc, hrest⟩ :=
        exists_cut (show rest.length = 4 + 17 + 1 from hrest)
      obtain ⟨d, z, e, rfl, hd, he⟩ :=
        exists_cut (show rest.length = 4 + 12 + 1 from hrest)
      obtain ⟨⟨rfl, rfl, rfl, rfl⟩, hga, hgb, hgc, hgd, hge⟩ :=
        (all_zipIdx_uuid ha hb hc hd he).mp hbytes
      exact .inr ⟨a, b, c, d, e, rfl, ⟨ha, hga⟩, ⟨hb, hgb⟩, ⟨hc, hgc⟩,
        ⟨hd, hgd⟩, ⟨he, hge⟩⟩
  · intro h
    rcases h with ⟨id, rfl, hlength, hhex⟩ | huuid
    · rw [validKey, stripLead_append]
      exact Bool.and_eq_true_iff.mpr ⟨beq_iff_eq.mpr hlength, hhex⟩
    · rw [validKey, huuid.stripLead_none]
      obtain ⟨a, b, c, d, e, rfl, ⟨ha, hga⟩, ⟨hb, hgb⟩, ⟨hc, hgc⟩,
        ⟨hd, hgd⟩, ⟨he, hge⟩⟩ := huuid
      refine Bool.and_eq_true_iff.mpr ⟨?_, ?_⟩
      · apply beq_iff_eq.mpr
        simp only [List.length_append, List.length_cons, ha, hb, hc, hd, he]
      · exact (all_zipIdx_uuid ha hb hc hd he).mpr
          ⟨⟨rfl, rfl, rfl, rfl⟩, hga, hgb, hgc, hgd, hge⟩

theorem lowercaseHex_lt {b : UInt8} (h : lowercaseHex b = true) :
    b < 128 := by
  simp only [lowercaseHex, isDigit, Bool.or_eq_true, decide_eq_true_eq,
    UInt8.le_iff_toNat_le] at h
  apply UInt8.lt_iff_toNat_lt.mpr
  rcases h with ⟨-, h⟩ | ⟨-, h⟩
  · exact Nat.lt_of_le_of_lt h (by decide)
  · exact Nat.lt_of_le_of_lt h (by decide)

theorem isDigit_lt {b : UInt8} (h : isDigit b = true) : b < 128 :=
  lowercaseHex_lt (by rw [lowercaseHex, h, Bool.true_or])

/-- No part of a key ARN has a colon or leaves ASCII. -/
def PlainBytes (bs : Bytes) : Prop := ∀ b ∈ bs, b < 128 ∧ b ≠ 58

theorem HexBytes.plain {width : Nat} {bs : Bytes} (h : HexBytes width bs) :
    PlainBytes bs := by
  intro b hb
  have hhex := List.all_eq_true.mp h.2 b hb
  refine ⟨lowercaseHex_lt hhex, ?_⟩
  intro hcolon
  rw [hcolon] at hhex
  exact absurd hhex (by decide)

theorem PlainBytes.append {as bs : Bytes} (ha : PlainBytes as)
    (hb : PlainBytes bs) : PlainBytes (as ++ bs) := by
  intro b hmem
  rcases List.mem_append.mp hmem with hmem | hmem
  · exact ha b hmem
  · exact hb b hmem

theorem PlainBytes.dash {bs : Bytes} (h : PlainBytes bs) :
    PlainBytes (45 :: bs) := by
  intro b hmem
  rcases List.mem_cons.mp hmem with rfl | hmem
  · decide
  · exact h b hmem

theorem plain_of_all {bs : Bytes}
    (h : (bs.all fun b => decide (b < 128 ∧ b ≠ 58)) = true) :
    PlainBytes bs :=
  fun b hb => of_decide_eq_true (List.all_eq_true.mp h b hb)

theorem validKey_plain {key : Bytes} (h : validKey key = true) :
    PlainBytes key := by
  rcases validKey_iff.mp h with ⟨id, rfl, hid⟩ |
    ⟨a, b, c, d, e, rfl, ha, hb, hc, hd, he⟩
  · exact (plain_of_all (by decide)).append hid.plain
  · exact ha.plain.append (hb.plain.append (hc.plain.append
      (hd.plain.append he.plain.dash).dash).dash).dash

/-! ## The parser in bytes -/

structure ArnParts (region account key : Bytes) : Prop where
  region : (kmsRegions.map ascii).contains region = true
  account : account.length = 12 ∧ account.all isDigit = true
  key : validKey key = true

def arnFields (region account key : Bytes) : List Bytes :=
  [ascii "arn", ascii "aws", ascii "kms", region, account,
    ascii "key/" ++ key]

def arnBytes (region account key : Bytes) : Bytes :=
  [58].intercalate (arnFields region account key)

theorem arnBytes_eq (region account key : Bytes) :
    arnBytes region account key
      = ascii "arn:aws:kms:" ++ (region ++ (ascii ":" ++ (account ++
        (ascii ":key/" ++ key)))) := by
  simp only [arnBytes, arnFields, List.intercalate, List.intersperse,
    List.flatten_cons, List.flatten_nil, List.append_nil]
  rfl

theorem ArnParts.region_plain {region account key : Bytes}
    (h : ArnParts region account key) : PlainBytes region := by
  have hall : ((kmsRegions.map ascii).all fun region =>
      region.all fun b => decide (b < 128 ∧ b ≠ 58)) = true := by
    decide
  exact plain_of_all (List.all_eq_true.mp hall region
    (List.contains_iff_mem.mp h.region))

theorem ArnParts.account_plain {region account key : Bytes}
    (h : ArnParts region account key) : PlainBytes account := by
  have hhex : HexBytes 12 account := by
    refine ⟨h.account.1, List.all_eq_true.mpr ?_⟩
    intro b hb
    rw [lowercaseHex, List.all_eq_true.mp h.account.2 b hb, Bool.true_or]
  exact hhex.plain

theorem PlainBytes.colon_notMem {bs : Bytes} (h : PlainBytes bs) :
    58 ∉ bs :=
  fun hmem => (h 58 hmem).2 rfl

theorem splitOn_arnBytes {region account key : Bytes}
    (h : ArnParts region account key) :
    (arnBytes region account key).splitOn 58
      = arnFields region account key := by
  apply List.splitOn_intercalate
  · intro field hfield
    apply PlainBytes.colon_notMem
    simp only [arnFields, List.mem_cons, List.not_mem_nil, or_false] at hfield
    rcases hfield with rfl | rfl | rfl | rfl | rfl | rfl
    · exact plain_of_all (by decide)
    · exact plain_of_all (by decide)
    · exact plain_of_all (by decide)
    · exact h.region_plain
    · exact h.account_plain
    · exact (plain_of_all (by decide)).append (validKey_plain h.key)
  · exact List.cons_ne_nil _ _

/-- Six fields, when there are a third, a fourth and a fifth after the first
three and no seventh. -/
theorem eq_six_fields {α : Type} {fields : List α} {a b c d e f : α}
    (htake : fields.take 3 = [a, b, c]) (hd : fields[3]? = some d)
    (he : fields[4]? = some e) (hf : fields[5]? = some f)
    (hend : fields[6]? = none) : fields = [a, b, c, d, e, f] := by
  have hlength : fields.length ≤ 6 := List.getElem?_eq_none_iff.mp hend
  have hdrop : fields.drop 3 = [d, e, f] := by
    apply List.ext_getElem?
    intro i
    rw [List.getElem?_drop]
    match i with
    | 0 => exact hd
    | 1 => exact he
    | 2 => exact hf
    | i + 3 =>
        rw [List.getElem?_eq_none (by omega)]
        rfl
  rw [← List.take_append_drop 3 fields, htake, hdrop]
  rfl

theorem keyRegion_ok_iff {bytes region : Bytes} :
    keyRegion bytes = .ok region ↔
      ∃ account key, ArnParts region account key ∧
        bytes = arnBytes region account key := by
  refine ⟨?_, ?_⟩
  · intro h
    unfold keyRegion at h
    obtain ⟨_, hlead, h⟩ := bind_ok h
    obtain ⟨field, hregion, h⟩ := bind_ok h
    obtain ⟨_, hlisted, h⟩ := bind_ok h
    obtain ⟨account, haccount, h⟩ := bind_ok h
    obtain ⟨_, hdigits, h⟩ := bind_ok h
    obtain ⟨resource, hresource, h⟩ := bind_ok h
    obtain ⟨_, hend, h⟩ := bind_ok h
    obtain ⟨key, hkey, h⟩ := bind_ok h
    obtain ⟨_, hvalid, h⟩ := bind_ok h
    injection h with h
    subst h
    have hdigits := Bool.and_eq_true_iff.mp (ensure_ok hdigits)
    have hfields := eq_six_fields (beq_iff_eq.mp (ensure_ok hlead))
      (present_ok hregion) (present_ok haccount) (present_ok hresource)
      (Option.isNone_iff_eq_none.mp (ensure_ok hend))
    refine ⟨account, key, ⟨ensure_ok hlisted,
      ⟨beq_iff_eq.mp hdigits.1, hdigits.2⟩, ensure_ok hvalid⟩, ?_⟩
    have hjoin : [58].intercalate (bytes.splitOn 58) = bytes :=
      List.intercalate_splitOn 58
    rw [← hjoin, hfields, stripLead_some (present_ok hkey)]
    rfl
  · intro h
    obtain ⟨account, key, hparts, rfl⟩ := h
    have hdigits : (account.length == 12 && account.all isDigit) = true := by
      rw [hparts.account.2, Bool.and_true]
      exact beq_iff_eq.mpr hparts.account.1
    have hstrip : stripLead (ascii "key/") (ascii "key/" ++ key) = some key :=
      stripLead_append _ _
    unfold keyRegion
    rw [splitOn_arnBytes hparts]
    simp only [arnFields, List.getElem?_cons_succ, List.getElem?_cons_zero,
      present, ok_bind, hparts.region, hdigits, hstrip, hparts.key]
    rfl

theorem keyRegion_describes (bytes : Bytes) :
    Describes (keyRegion bytes) := by
  refine (describes_ensure _ _).bind fun _ => ?_
  refine (describes_present _ _).bind fun region => ?_
  refine (describes_ensure _ _).bind fun _ => ?_
  refine (describes_present _ _).bind fun account => ?_
  refine (describes_ensure _ _).bind fun _ => ?_
  refine (describes_present _ _).bind fun resource => ?_
  refine (describes_ensure _ _).bind fun _ => ?_
  refine (describes_present _ _).bind fun key => ?_
  refine (describes_ensure _ _).bind fun _ => ?_
  exact describes_pure region

/-! ## The parser on texts -/

/-- A width and a class of ASCII bytes, said of characters. -/
theorem utf8_all_iff {p : UInt8 → Bool} {q : Char → Prop} {width : Nat}
    {s : String} (hlow : ∀ b, p b = true → b < 128)
    (hq : ∀ c, q c ↔ c.toNat < 128 ∧ p (UInt8.ofNat c.toNat) = true) :
    ((utf8 s).length = width ∧ (utf8 s).all p = true) ↔
      s.toList.length = width ∧ ∀ c ∈ s.toList, q c := by
  suffices hchars : (utf8 s).all p = true ∨ (∀ c ∈ s.toList, q c) →
      utf8 s = ascii s ∧ ∀ c ∈ s.toList, c.toNat < 128 by
    refine ⟨?_, ?_⟩
    · intro h
      obtain ⟨hbytes, hascii⟩ := hchars (.inl h.2)
      rw [hbytes, ascii, List.length_map, List.all_map] at h
      refine ⟨h.1, ?_⟩
      intro c hc
      exact (hq c).mpr ⟨hascii c hc, List.all_eq_true.mp h.2 c hc⟩
    · intro h
      obtain ⟨hbytes, -⟩ := hchars (.inr h.2)
      rw [hbytes, ascii, List.length_map, List.all_map]
      refine ⟨h.1, List.all_eq_true.mpr ?_⟩
      intro c hc
      exact ((hq c).mp (h.2 c hc)).2
  intro h
  have hascii : ∀ c ∈ s.toList, c.toNat < 128 := by
    rcases h with h | h
    · have hbytes : ∀ b ∈ utf8 s, b < 128 := by
        intro b hb
        exact hlow b (List.all_eq_true.mp h b hb)
      have hs : s = ofAscii (utf8 s) := utf8_inj (utf8_ofAscii hbytes).symm
      intro c hc
      rw [hs, ofAscii, String.toList_ofList] at hc
      obtain ⟨b, hb, rfl⟩ := List.mem_map.mp hc
      have hb := UInt8.lt_iff_toNat_lt.mp (hbytes b hb)
      rw [toNat_ofNat_of_lt hb]
      exact hb
    · intro c hc
      exact ((hq c).mp (h c hc)).1
  exact ⟨utf8_eq_ascii hascii, hascii⟩

theorem mem_hexAlphabet_iff (c : Char) :
    c ∈ hexAlphabet ↔
      c.toNat < 128 ∧ lowercaseHex (UInt8.ofNat c.toNat) = true := by
  refine ⟨?_, ?_⟩
  · intro h
    have hall : (hexAlphabet.all fun c => decide (c.toNat < 128 ∧
        lowercaseHex (UInt8.ofNat c.toNat) = true)) = true := by
      decide
    exact of_decide_eq_true (List.all_eq_true.mp hall c h)
  · intro h
    have hall : ∀ n < 128, lowercaseHex (UInt8.ofNat n) = true →
        Char.ofNat n ∈ hexAlphabet := by
      decide
    have hc := hall c.toNat h.1 h.2
    rw [Char.ofNat_toNat] at hc
    exact hc

theorem isDigit_iff (c : Char) :
    c.isDigit = true ↔
      c.toNat < 128 ∧ isDigit (UInt8.ofNat c.toNat) = true := by
  have hall : ∀ n < 128, (Char.ofNat n).isDigit = isDigit (UInt8.ofNat n) := by
    decide
  refine ⟨?_, ?_⟩
  · intro h
    have hlt : c.toNat < 128 := by
      simp only [Char.isDigit, Bool.and_eq_true, decide_eq_true_eq] at h
      have hle := UInt32.le_iff_toNat_le.mp h.2
      have hval : c.toNat = c.val.toNat := rfl
      have hnine : ('9' : Char).val.toNat = 57 := rfl
      omega
    refine ⟨hlt, ?_⟩
    rw [← hall c.toNat hlt, Char.ofNat_toNat]
    exact h
  · intro h
    rw [← hall c.toNat h.1, Char.ofNat_toNat] at h
    exact h.2

theorem isHex_iff {width : Nat} {text : String} :
    IsHex width text ↔ HexBytes width (utf8 text) :=
  (utf8_all_iff (fun _ h => lowercaseHex_lt h) mem_hexAlphabet_iff).symm

theorem isAccount_iff {account : String} :
    (account.toList.length = 12 ∧ ∀ c ∈ account.toList, c.isDigit = true) ↔
      (utf8 account).length = 12 ∧ (utf8 account).all isDigit = true :=
  (utf8_all_iff (fun _ h => isDigit_lt h) isDigit_iff).symm

/-- Every listed region is its ASCII bytes. -/
theorem mem_kmsRegions_iff {region : String} :
    region ∈ kmsRegions ↔
      (kmsRegions.map ascii).contains (utf8 region) = true := by
  have hascii : kmsRegions.map ascii = kmsRegions.map utf8 := by
    apply List.map_congr_left
    intro listed hlisted
    have hall : (kmsRegions.all fun region =>
        region.toList.all fun c => decide (c.toNat < 128)) = true := by
      decide
    have hchars := List.all_eq_true.mp hall listed hlisted
    exact (utf8_eq_ascii fun c hc =>
      of_decide_eq_true (List.all_eq_true.mp hchars c hc)).symm
  have hinj : Function.Injective utf8 := fun _ _ h => utf8_inj h
  rw [hascii, List.contains_iff_mem]
  exact (List.mem_map_of_injective hinj).symm

theorem HexBytes.utf8_ofAscii {width : Nat} {bs : Bytes}
    (h : HexBytes width bs) : utf8 (ofAscii bs) = bs :=
  Lib.utf8_ofAscii fun b hb =>
    lowercaseHex_lt (List.all_eq_true.mp h.2 b hb)

theorem HexBytes.isHex_ofAscii {width : Nat} {bs : Bytes}
    (h : HexBytes width bs) : IsHex width (ofAscii bs) := by
  rw [isHex_iff, h.utf8_ofAscii]
  exact h

/-- The bytes of a literal. -/
theorem utf8_literal {s : String}
    (h : (s.toList.all fun c => decide (c.toNat < 128)) = true) :
    utf8 s = ascii s :=
  utf8_eq_ascii fun c hc => of_decide_eq_true (List.all_eq_true.mp h c hc)

theorem isMultiRegionKey_iff {key : String} :
    IsMultiRegionKey key ↔ MultiRegionBytes (utf8 key) := by
  have hlead : utf8 "mrk-" = ascii "mrk-" := utf8_literal (by decide)
  refine ⟨?_, ?_⟩
  · intro h
    obtain ⟨id, rfl, hid⟩ := h
    exact ⟨utf8 id, by rw [utf8_append, hlead], isHex_iff.mp hid⟩
  · intro h
    obtain ⟨id, hkey, hid⟩ := h
    refine ⟨ofAscii id, ?_, hid.isHex_ofAscii⟩
    apply utf8_inj
    rw [hkey, utf8_append, hlead, hid.utf8_ofAscii]

theorem isUuid_iff {key : String} : IsUuid key ↔ UuidBytes (utf8 key) := by
  have hdash : utf8 "-" = [45] := utf8_literal (by decide)
  refine ⟨?_, ?_⟩
  · intro h
    obtain ⟨a, b, c, d, e, rfl, ha, hb, hc, hd, he⟩ := h
    refine ⟨utf8 a, utf8 b, utf8 c, utf8 d, utf8 e, ?_, isHex_iff.mp ha,
      isHex_iff.mp hb, isHex_iff.mp hc, isHex_iff.mp hd, isHex_iff.mp he⟩
    simp only [utf8_append, hdash, List.append_assoc, List.cons_append,
      List.nil_append]
  · intro h
    obtain ⟨a, b, c, d, e, hkey, ha, hb, hc, hd, he⟩ := h
    refine ⟨ofAscii a, ofAscii b, ofAscii c, ofAscii d, ofAscii e, ?_,
      ha.isHex_ofAscii, hb.isHex_ofAscii, hc.isHex_ofAscii, hd.isHex_ofAscii,
      he.isHex_ofAscii⟩
    apply utf8_inj
    simp only [utf8_append, hdash, List.append_assoc, List.cons_append,
      List.nil_append, ha.utf8_ofAscii, hb.utf8_ofAscii, hc.utf8_ofAscii,
      hd.utf8_ofAscii, he.utf8_ofAscii, hkey]

theorem KeyArn.canonical_iff {arn : KeyArn} :
    arn.Canonical ↔
      ArnParts (utf8 arn.region) (utf8 arn.account) (utf8 arn.key) := by
  refine ⟨?_, ?_⟩
  · intro h
    refine ⟨mem_kmsRegions_iff.mp h.region, isAccount_iff.mp h.account, ?_⟩
    rw [validKey_iff, ← isMultiRegionKey_iff, ← isUuid_iff]
    exact h.key
  · intro h
    refine ⟨mem_kmsRegions_iff.mpr h.region, isAccount_iff.mpr h.account, ?_⟩
    rw [isMultiRegionKey_iff, isUuid_iff, ← validKey_iff]
    exact h.key

theorem KeyArn.utf8_text (arn : KeyArn) :
    utf8 arn.text
      = arnBytes (utf8 arn.region) (utf8 arn.account) (utf8 arn.key) := by
  have hlead : utf8 "arn:aws:kms:" = ascii "arn:aws:kms:" :=
    utf8_literal (by decide)
  have hcolon : utf8 ":" = ascii ":" := utf8_literal (by decide)
  have hkey : utf8 ":key/" = ascii ":key/" := utf8_literal (by decide)
  rw [arnBytes_eq]
  change utf8 ("arn:aws:kms:" ++ arn.region ++ ":" ++ arn.account ++ ":key/" ++
    arn.key) = _
  simp only [utf8_append, hlead, hcolon, hkey, List.append_assoc]

/-- Parts in bytes are the bytes of three texts. -/
theorem ArnParts.exists_text {region account key : Bytes}
    (h : ArnParts region account key) :
    ∃ arn : KeyArn, arn.Canonical ∧ utf8 arn.region = region ∧
      utf8 arn.account = account ∧ utf8 arn.key = key := by
  have hregion := utf8_ofAscii fun b hb => (h.region_plain b hb).1
  have haccount := utf8_ofAscii fun b hb => (h.account_plain b hb).1
  have hkey := utf8_ofAscii fun b hb => (validKey_plain h.key b hb).1
  refine ⟨⟨ofAscii region, ofAscii account, ofAscii key⟩, ?_, hregion,
    haccount, hkey⟩
  rw [KeyArn.canonical_iff, hregion, haccount, hkey]
  exact h

/-- What a text names, when it is the text of a canonical key ARN. -/
def KeyArn.Names (s : String) (arn : KeyArn) : Prop :=
  arn.Canonical ∧ s = arn.text

theorem keyRegion_ok {s : String} {bytes : Bytes} :
    keyRegion (utf8 s) = .ok bytes ↔
      ∃ arn, KeyArn.Names s arn ∧ bytes = utf8 arn.region := by
  rw [keyRegion_ok_iff]
  refine ⟨?_, ?_⟩
  · intro h
    obtain ⟨account, key, hparts, hbytes⟩ := h
    obtain ⟨arn, hcanonical, hregion, haccount, hkey⟩ := hparts.exists_text
    refine ⟨arn, ⟨hcanonical, utf8_inj ?_⟩, hregion.symm⟩
    rw [arn.utf8_text, hregion, haccount, hkey, hbytes]
  · intro h
    obtain ⟨arn, ⟨hcanonical, rfl⟩, rfl⟩ := h
    exact ⟨_, _, KeyArn.canonical_iff.mp hcanonical, arn.utf8_text⟩

theorem KeyArn.Names.unique {s : String} {a b : KeyArn}
    (ha : KeyArn.Names s a) (hb : KeyArn.Names s b) : a = b := by
  obtain ⟨ha, rfl⟩ := ha
  obtain ⟨hb, htext⟩ := hb
  have hbytes := congrArg utf8 htext
  rw [a.utf8_text, b.utf8_text] at hbytes
  have hfields := congrArg (List.splitOn 58) hbytes
  rw [splitOn_arnBytes (canonical_iff.mp ha),
    splitOn_arnBytes (canonical_iff.mp hb)] at hfields
  simp only [arnFields, List.cons.injEq, List.append_cancel_left_eq,
    true_and, and_true] at hfields
  obtain ⟨hregion, haccount, hkey⟩ := hfields
  cases a
  cases b
  rw [KeyArn.mk.injEq]
  exact ⟨utf8_inj hregion, utf8_inj haccount, utf8_inj hkey⟩

/-- `key_region` lets through the canonical key ARNs and nothing else, and
each of them names one region, account and key. -/
theorem keyRegion_canonical :
    (∀ s region : String, keyRegion (utf8 s) = .ok (utf8 region) ↔
      ∃ account key, KeyArn.Names s ⟨region, account, key⟩) ∧
    (∀ s : String, (¬∃ arn, KeyArn.Names s arn) →
      ∃ text, keyRegion (utf8 s) = .error (.message text)) ∧
    (∀ s a b, KeyArn.Names s a → KeyArn.Names s b → a = b) ∧
    (∀ s t a b, KeyArn.Names s a → KeyArn.Names t b → s ≠ t → a ≠ b) := by
  refine ⟨?_, ?_, ?_, ?_⟩
  · intro s region
    rw [keyRegion_ok]
    refine ⟨?_, ?_⟩
    · intro h
      obtain ⟨arn, hnames, hregion⟩ := h
      rw [utf8_inj hregion]
      exact ⟨arn.account, arn.key, hnames⟩
    · intro h
      obtain ⟨account, key, hnames⟩ := h
      exact ⟨_, hnames, rfl⟩
  · intro s hnone
    cases hresult : keyRegion (utf8 s) with
    | ok bytes =>
        obtain ⟨arn, hnames, -⟩ := keyRegion_ok.mp hresult
        exact absurd ⟨arn, hnames⟩ hnone
    | error error =>
        obtain ⟨text, rfl⟩ := keyRegion_describes _ error hresult
        exact ⟨text, rfl⟩
  · intro s a b ha hb
    exact ha.unique hb
  · intro s t a b ha hb hne hab
    rw [hab] at ha
    exact hne (ha.2.trans hb.2.symm)

theorem isHex_of_all {width : Nat} {text : String}
    (h : (text.toList.length == width &&
      text.toList.all fun c => hexAlphabet.contains c) = true) :
    IsHex width text := by
  obtain ⟨hlength, hall⟩ := Bool.and_eq_true_iff.mp h
  refine ⟨beq_iff_eq.mp hlength, ?_⟩
  intro c hc
  exact List.contains_iff_mem.mp (List.all_eq_true.mp hall c hc)

theorem keyRegion_test_key :
    keyRegion (utf8 ("arn:aws:kms:us-east-1:123456789012:key/" ++
      "12345678-1234-1234-1234-123456789abc")) = .ok (utf8 "us-east-1") := by
  refine (keyRegion_canonical.1 _ _).mpr ⟨"123456789012",
    "12345678-1234-1234-1234-123456789abc", ?_, by decide⟩
  refine ⟨by decide, ⟨by decide, ?_⟩, .inr ⟨"12345678", "1234", "1234",
    "1234", "123456789abc", by decide, isHex_of_all (by decide),
    isHex_of_all (by decide), isHex_of_all (by decide),
    isHex_of_all (by decide), isHex_of_all (by decide)⟩⟩
  exact List.all_eq_true.mp (by decide)

/-! ## The root's info string -/

section

variable {T : Types} (K : KeyCrates T)

end

namespace Symbolic

end Symbolic

end SapioTee
