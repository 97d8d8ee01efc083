import SapioTee.Model.Symbolic

/-!
# The policy envelope is parsed exactly

Every byte of the parameters is the client's, the length word included. A
blob that starts with the magic is either a laid-out envelope, a document of
the announced length and whatever follows, or it is refused; on an envelope
`parse` is a function of the document alone (`parse_encode`). The checks in
front of the two slices are what keeps them in range, so no answer of `parse`
is a panic.
-/

namespace SapioTee

open Lib

namespace NativePolicy

variable {T : Types} (C : Crates T)

/-- The policy is the document's, entry by entry in order. -/
structure Decodes (document : Document) (policy : NativePolicy T) : Prop where
  offboard : List.Forall₂ (fun text x => C.scriptFromHex text = .ok x)
    document.offboard policy.offboard
  arkoor : List.Forall₂ (fun text x => C.policyFromHex text = .ok x)
    document.arkoor policy.arkoor
  round : List.Forall₂ (fun text x => C.policyFromHex text = .ok x)
    document.round policy.round
  delegatedRound : List.Forall₂ (fun text x => C.policyFromHex text = .ok x)
    document.delegatedRound policy.delegatedRound
  status : policy.status = document.status
  lightningReceive : policy.lightningReceive = document.lightningReceive

/-! ## The document -/

theorem entries_ok_iff {α : Type} {decode : String → Except String α}
    {label : String} {values : List String} {xs : List α} :
    entries decode label values = .ok xs ↔
      List.Forall₂ (fun text x => decode text = .ok x) values xs := by
  induction values generalizing xs with
  | nil =>
      constructor
      · intro h
        injection h with h
        subst h
        exact .nil
      · intro h
        cases h
        rfl
  | cons value values ih =>
      rw [entries, List.mapM_cons]
      constructor
      · intro h
        obtain ⟨x, hx, h⟩ := bind_ok h
        obtain ⟨rest, hrest, h⟩ := bind_ok h
        injection h with h
        subst h
        split at hx
        · next y hy =>
            injection hx with hx
            subst hx
            exact .cons hy (ih.mp hrest)
        · cases hx
      · intro h
        cases h with
        | cons hx hrest =>
            have hentries := ih.mpr hrest
            rw [entries] at hentries
            rw [hx, hentries]
            rfl

theorem entries_describes {α : Type} (decode : String → Except String α)
    (label : String) (values : List String) :
    Describes (entries decode label values) := by
  apply Describes.mapM
  intro value error h
  split at h
  · cases h
  · injection h with h
    exact ⟨_, h.symm⟩

theorem ofDocument_ok_iff {document : Document} {policy : NativePolicy T} :
    ofDocument C document = .ok policy ↔ Decodes C document policy := by
  constructor
  · intro h
    obtain ⟨offboard, hoffboard, h⟩ := bind_ok h
    obtain ⟨arkoor, harkoor, h⟩ := bind_ok h
    obtain ⟨round, hround, h⟩ := bind_ok h
    obtain ⟨delegated, hdelegated, h⟩ := bind_ok h
    injection h with h
    subst h
    exact ⟨entries_ok_iff.mp hoffboard, entries_ok_iff.mp harkoor,
      entries_ok_iff.mp hround, entries_ok_iff.mp hdelegated, rfl, rfl⟩
  · rintro ⟨hoffboard, harkoor, hround, hdelegated, hstatus, hlightning⟩
    rw [ofDocument, scripts, policies, policies, policies,
      entries_ok_iff.mpr hoffboard, entries_ok_iff.mpr harkoor,
      entries_ok_iff.mpr hround, entries_ok_iff.mpr hdelegated, ← hstatus,
      ← hlightning]
    rfl

theorem ofDocument_describes (document : Document) :
    Describes (ofDocument C document) := by
  refine (entries_describes _ _ _).bind fun offboard => ?_
  refine (entries_describes _ _ _).bind fun arkoor => ?_
  refine (entries_describes _ _ _).bind fun round => ?_
  refine (entries_describes _ _ _).bind fun delegated => ?_
  exact describes_pure _

/-- What `parse` does with the document of an envelope. -/
def readDocument (bytes : Bytes) : Except Error (Option (NativePolicy T)) :=
  match C.documentFromSlice bytes with
  | .error _ => .error (.message "invalid native ownership policy JSON")
  | .ok document => do
      ensure (document.version == 1)
        "unsupported native ownership policy version"
      let policy ← ofDocument C document
      pure (some policy)

theorem readDocument_ok_iff {bytes : Bytes}
    {result : Option (NativePolicy T)} :
    readDocument C bytes = .ok result ↔
      ∃ document policy, C.documentFromSlice bytes = .ok document ∧
        document.version = 1 ∧ Decodes C document policy ∧
        result = some policy := by
  unfold readDocument
  constructor
  · intro h
    split at h
    · cases h
    · next document hdocument =>
        obtain ⟨_, hversion, h⟩ := bind_ok h
        obtain ⟨policy, hpolicy, h⟩ := bind_ok h
        injection h with h
        exact ⟨document, policy, hdocument, eq_of_beq (ensure_ok hversion),
          (ofDocument_ok_iff C).mp hpolicy, h.symm⟩
  · rintro ⟨document, policy, hdocument, hversion, hpolicy, rfl⟩
    simp only [hdocument, hversion, (ofDocument_ok_iff C).mpr hpolicy]
    rfl

theorem readDocument_describes (bytes : Bytes) :
    Describes (readDocument C bytes) := by
  unfold readDocument
  split
  · intro error h
    injection h with h
    exact ⟨_, h.symm⟩
  · refine (describes_ensure _ _).bind fun _ => ?_
    refine (ofDocument_describes C _).bind fun policy => ?_
    exact describes_pure (some policy)

/-! ## The envelope -/

theorem slice_append {a b c : Bytes} {start stop : Nat}
    (hstart : start = a.length) (hstop : stop = a.length + b.length) :
    slice (a ++ b ++ c) start stop = .ok b := by
  subst hstart hstop
  rw [slice, if_pos ⟨by omega, by
    rw [List.length_append, List.length_append]; omega⟩,
    List.take_left' (by rw [List.length_append]), List.drop_left]

theorem encode_ok_iff {document inner bytes : Bytes} :
    encode document inner = .ok bytes ↔ document.length < 2 ^ 32 ∧
      bytes = magic ++ (leBytes 4 document.length ++ document ++ inner) := by
  unfold encode tryU32
  by_cases hlt : document.length < 2 ^ 32
  · have hword : u32Le (UInt32.ofNat document.length)
        = leBytes 4 document.length := by
      rw [u32Le, UInt32.toNat_ofNat_of_lt' hlt]
    rw [if_pos hlt]
    simp only [hword, List.append_assoc, hlt, true_and]
    exact ⟨fun h => (Except.ok.inj h).symm, fun h => congrArg Except.ok h.symm⟩
  · rw [if_neg hlt]
    exact ⟨fun h => (nomatch h), fun h => absurd h.1 hlt⟩

theorem checkedAdd_word {word : Bytes} (h : word.length = 4) :
    checkedAdd 4 (leNat word) = some (4 + leNat word) := by
  have hlt := leNat_lt word
  rw [h] at hlt
  rw [checkedAdd, if_pos (by omega)]

/-- On an envelope, `parse` reads the document and nothing else. -/
theorem parse_encode {document inner bytes : Bytes}
    (h : encode document inner = .ok bytes) :
    parse C bytes = readDocument C document := by
  obtain ⟨hlt, rfl⟩ := encode_ok_iff.mp h
  have hword := leNat_leBytes (w := 4) hlt
  have hslice : slice (leBytes 4 document.length ++ document ++ inner) 0 4
      = .ok (leBytes 4 document.length) := by
    rw [List.append_assoc]
    exact @slice_append [] (leBytes 4 document.length) (document ++ inner) 0 4
      rfl (by rw [length_leBytes]; rfl)
  have hbody : slice (leBytes 4 document.length ++ document ++ inner) 4
      (4 + document.length) = .ok document :=
    slice_append (length_leBytes 4 _).symm (by rw [length_leBytes])
  have hadd := checkedAdd_word (length_leBytes 4 document.length)
  rw [hword] at hadd
  have hshort : decide
      (4 ≤ (leBytes 4 document.length ++ document ++ inner).length) = true := by
    simp only [List.length_append, length_leBytes, decide_eq_true_eq]
    omega
  have hlong : decide (4 + document.length
      ≤ (leBytes 4 document.length ++ document ++ inner).length) = true := by
    simp only [List.length_append, length_leBytes, decide_eq_true_eq]
    omega
  unfold parse
  rw [stripLead_append]
  simp only [hshort, hslice, hword, hadd, hlong, hbody, ensure, if_true,
    ok_bind]
  rfl

/-- What starts with the magic is an envelope or is refused by text. -/
theorem encoded_or_refused {bytes : Bytes} (h : magic <+: bytes) :
    (∃ document inner, encode document inner = .ok bytes) ∨
      ∃ text, parse C bytes = .error (.message text) := by
  obtain ⟨rest, rfl⟩ := h
  by_cases hshort : 4 ≤ rest.length
  · have hword : (rest.take 4).length = 4 := List.length_take_of_le hshort
    have hlt := leNat_lt (rest.take 4)
    rw [hword] at hlt
    by_cases hlong : 4 + leNat (rest.take 4) ≤ rest.length
    · refine .inl ⟨(rest.drop 4).take (leNat (rest.take 4)),
        (rest.drop 4).drop (leNat (rest.take 4)), encode_ok_iff.mpr ?_⟩
      have hlen : ((rest.drop 4).take (leNat (rest.take 4))).length
          = leNat (rest.take 4) :=
        List.length_take_of_le (by rw [List.length_drop]; omega)
      have hbytes := leBytes_leNat (rest.take 4)
      rw [hword] at hbytes
      refine ⟨by rw [hlen]; exact hlt, ?_⟩
      rw [hlen, hbytes, List.append_assoc, List.take_append_drop,
        List.take_append_drop]
    · refine .inr
        ⟨"native ownership policy length exceeds the parameter blob", ?_⟩
      have hslice : slice rest 0 4 = .ok (rest.take 4) := by
        rw [slice, if_pos ⟨by omega, hshort⟩, List.drop_zero]
      unfold parse
      rw [stripLead_append]
      simp only [hslice, checkedAdd_word hword, ensure, hshort, hlong,
        decide_true, decide_false, if_true, ok_bind]
      rfl
  · refine .inr ⟨"native ownership policy envelope is truncated", ?_⟩
    unfold parse
    rw [stripLead_append]
    simp only [ensure, hshort, decide_false]
    rfl

theorem parse_eq_none_iff (bytes : Bytes) :
    parse C bytes = .ok none ↔ ¬ magic <+: bytes := by
  constructor
  · intro h hlead
    rcases encoded_or_refused C hlead with ⟨document, inner, henc⟩ | ⟨text, hx⟩
    · rw [parse_encode C henc] at h
      obtain ⟨_, _, -, -, -, hsome⟩ := (readDocument_ok_iff C).mp h
      cases hsome
    · rw [h] at hx
      cases hx
  · intro h
    rw [parse, stripLead_none h]

/-- The layout is unambiguous: the length word cuts the document off. -/
theorem encode_injective {document document' inner inner' : Bytes}
    (hdocument : document.length < 2 ^ 32)
    (hdocument' : document'.length < 2 ^ 32)
    (h : encode document inner = encode document' inner') :
    document = document' ∧ inner = inner' := by
  rw [encode_ok_iff.mpr ⟨hdocument, rfl⟩, encode_ok_iff.mpr ⟨hdocument', rfl⟩,
    Except.ok.injEq] at h
  have hrest := List.append_cancel_left h
  rw [List.append_assoc, List.append_assoc] at hrest
  obtain ⟨hword, hrest⟩ := List.append_inj hrest (by
    rw [length_leBytes, length_leBytes])
  have hlen := congrArg leNat hword
  rw [leNat_leBytes (w := 4) hdocument, leNat_leBytes (w := 4) hdocument']
    at hlen
  exact List.append_inj hrest hlen

/-- The bytes are the layout of a version-one document that decodes to the
policy, followed by anything. -/
def IsEnvelope (bytes : Bytes) (policy : NativePolicy T) : Prop :=
  ∃ d inner document, encode d inner = .ok bytes ∧
    C.documentFromSlice d = .ok document ∧ document.version = 1 ∧
    Decodes C document policy

theorem parse_eq_some_iff (bytes : Bytes) (policy : NativePolicy T) :
    parse C bytes = .ok (some policy) ↔ IsEnvelope C bytes policy := by
  constructor
  · intro h
    have hlead : magic <+: bytes := by
      by_contra hnot
      rw [(parse_eq_none_iff C bytes).mpr hnot] at h
      cases h
    rcases encoded_or_refused C hlead with ⟨d, inner, henc⟩ | ⟨text, herror⟩
    · rw [parse_encode C henc] at h
      obtain ⟨document, policy', hdocument, hversion, hdecodes, hsome⟩ :=
        (readDocument_ok_iff C).mp h
      injection hsome with hsome
      subst hsome
      exact ⟨d, inner, document, henc, hdocument, hversion, hdecodes⟩
    · rw [h] at herror
      cases herror
  · rintro ⟨d, inner, document, henc, hdocument, hversion, hdecodes⟩
    rw [parse_encode C henc]
    exact (readDocument_ok_iff C).mpr
      ⟨document, policy, hdocument, hversion, hdecodes, rfl⟩

theorem parse_error {bytes : Bytes} {error : Error}
    (h : parse C bytes = .error error) :
    magic <+: bytes ∧ ∃ text, error = .message text := by
  by_cases hlead : magic <+: bytes
  · refine ⟨hlead, ?_⟩
    rcases encoded_or_refused C hlead with ⟨d, inner, henc⟩ | ⟨text, herror⟩
    · rw [parse_encode C henc] at h
      exact readDocument_describes C d error h
    · rw [h] at herror
      exact ⟨text, Except.error.inj herror⟩
  · rw [(parse_eq_none_iff C bytes).mpr hlead] at h
    cases h

/-- `parse` answers nothing exactly off the magic, a policy exactly on an
envelope of a document that decodes to it, and on anything else an error,
never a panic. What follows the document does not matter, and the layout is
injective. -/
theorem parse_exact {T : Types} (C : Crates T) :
    (∀ bytes, parse C bytes = .ok none ↔ ¬ magic <+: bytes) ∧
    (∀ bytes policy, parse C bytes = .ok (some policy) ↔
      IsEnvelope C bytes policy) ∧
    (∀ bytes, magic <+: bytes → (¬ ∃ policy, IsEnvelope C bytes policy) →
      ∃ text, parse C bytes = .error (.message text)) ∧
    (∀ bytes error, parse C bytes = .error error →
      ∃ text, error = .message text) ∧
    (∀ d inner inner' bytes bytes', encode d inner = .ok bytes →
      encode d inner' = .ok bytes' → parse C bytes = parse C bytes') ∧
    (∀ d d' inner inner', d.length < 2 ^ 32 → d'.length < 2 ^ 32 →
      encode d inner = encode d' inner' → d = d' ∧ inner = inner') := by
  refine ⟨parse_eq_none_iff C, parse_eq_some_iff C, ?_,
    fun _ _ h => (parse_error C h).2, ?_, fun _ _ _ _ => encode_injective⟩
  · intro bytes hlead hnot
    cases hparse : parse C bytes with
    | error error =>
        obtain ⟨text, rfl⟩ := (parse_error C hparse).2
        exact ⟨text, rfl⟩
    | ok result =>
        cases result with
        | none => exact absurd hlead ((parse_eq_none_iff C bytes).mp hparse)
        | some policy =>
            exact absurd ⟨policy, (parse_eq_some_iff C bytes policy).mp hparse⟩
              hnot
  · intro d inner inner' bytes bytes' h h'
    rw [parse_encode C h, parse_encode C h']

/-- The smallest document: only the version, every list empty. -/
def smallestDocument : Bytes := ascii "\x7b\"version\":1\x7d"

def documentCrates : Crates symbolicTypes :=
  { symbolicCrates with
    documentFromSlice := fun bytes =>
      if bytes = smallestDocument then .ok ⟨1, [], [], [], [], false, false⟩
      else .error "expected value" }

theorem parse_exact_smallestDocument :
    ∃ bytes bytes', encode smallestDocument [] = .ok bytes ∧
      encode smallestDocument [7] = .ok bytes' ∧
      parse documentCrates bytes
        = .ok (some ⟨[], [], [], [], false, false⟩) ∧
      parse documentCrates bytes = parse documentCrates bytes' ∧
      parse documentCrates [] = .ok none ∧
      ∃ text, parse documentCrates magic = .error (.message text) := by
  obtain ⟨hnone, hsome, hrefused, -, hinner, -⟩ := parse_exact documentCrates
  obtain ⟨bytes, h⟩ : ∃ bytes, encode smallestDocument [] = .ok bytes :=
    ⟨_, rfl⟩
  obtain ⟨bytes', h'⟩ : ∃ bytes, encode smallestDocument [7] = .ok bytes :=
    ⟨_, rfl⟩
  refine ⟨bytes, bytes', h, h', ?_, hinner _ _ _ _ _ h h', ?_, ?_⟩
  · exact (hsome _ _).mpr ⟨smallestDocument, [], ⟨1, [], [], [], [], false,
      false⟩, h, rfl, rfl, .nil, .nil, .nil, .nil, rfl, rfl⟩
  · exact (hnone []).mpr (by decide)
  · refine hrefused magic (List.prefix_refl _) ?_
    rintro ⟨policy, d, inner, document, henc, -⟩
    obtain ⟨-, hbytes⟩ := encode_ok_iff.mp henc
    have hlen := congrArg List.length hbytes
    simp only [List.length_append, length_leBytes] at hlen
    omega

end NativePolicy

end SapioTee
