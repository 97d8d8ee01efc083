import SapioTee.Model.KeyPolicy
import SapioTee.Proofs.Attestation

/-!
# Whom the key serves

Every policy `build_policy` writes lets the administrator administer and the
parent derive for the measured image, and lets nobody do anything else. The
two denials take nothing from what is allowed; they stand against what some
later statement might allow.

The measurements of a build go to the policy and to the verifiers. What is
read from one file fits both, so that KMS derives for an enclave when a
verifier takes its first register for the measured one, and not otherwise.

KMS itself is a parameter, an engine that decides as AWS documents
(`Policy.Engine.Documented`).
-/

namespace SapioTee

open Lib Policy

theorem lowered_lower (text : String) :
    lowered (lower text) = lowered text := by
  rw [lower, lowered, String.toList_ofList, lowered_map]

/-! ## The policy -/

namespace KeyPolicy

theorem literal_digits {account : List Char}
    (h : account.all Char.isDigit = true) : literal account = true := by
  rw [literal, List.all_eq_true]
  intro c hc
  have hdigit := List.all_eq_true.mp h c hc
  rw [Bool.and_eq_true, bne_iff_ne, bne_iff_ne]
  refine ⟨?_, ?_⟩
  · rintro rfl
    cases hdigit
  · rintro rfl
    cases hdigit

theorem literal_path {path : List Char} (h : path.all roleChar = true) :
    literal path = true := by
  have hnone : roleChar '*' = false ∧ roleChar '?' = false := by decide
  rw [literal, List.all_eq_true]
  intro c hc
  have hchar := List.all_eq_true.mp h c hc
  rw [Bool.and_eq_true, bne_iff_ne, bne_iff_ne]
  refine ⟨?_, ?_⟩
  · rintro rfl
    cases hnone.1.symm.trans hchar
  · rintro rfl
    cases hnone.2.symm.trans hchar

theorem isRole_of_roleArn {arn account : String}
    (h : roleArn arn = some account) : IsRole arn := by
  unfold roleArn at h
  obtain ⟨rest, hrest, h⟩ := Option.bind_eq_some_iff.mp h
  obtain ⟨path, hpath, h⟩ := Option.bind_eq_some_iff.mp h
  split at h
  · next hcond =>
      rw [Bool.and_eq_true, Bool.and_eq_true, isAccount,
        Bool.and_eq_true] at hcond
      obtain ⟨⟨⟨-, hdigits⟩, -⟩, hchars⟩ := hcond
      refine ⟨rest.take 12, path, ?_, literal_digits hdigits,
        literal_path hchars⟩
      rw [← List.append_eq_of_isPrefixOf?_eq_some hrest, List.append_assoc,
        List.append_assoc, List.append_eq_of_isPrefixOf?_eq_some hpath,
        List.take_append_drop]
  · cases h

/-- What a policy has passed. -/
theorem buildPolicy_ok {admin parent pcr0 : String} {key : Option String}
    {policy : Policy} (h : buildPolicy admin parent pcr0 key = .ok policy) :
    IsRole admin ∧ IsRole parent ∧
      policy.statement = [administration admin, derivation parent (lower pcr0),
        denial "DenyDerivationWithoutRecipientAttestation"
          ⟨.null, pcrKey, "true"⟩,
        denial "DenyDerivationOutsideMeasuredEnclave"
          ⟨.stringNotEqualsIgnoreCase, pcrKey, lower pcr0⟩] := by
  unfold buildPolicy at h
  obtain ⟨account, hadmin, h⟩ := bind_ok h
  obtain ⟨other, hparent, h⟩ := bind_ok h
  obtain ⟨_, -, h⟩ := bind_ok h
  obtain ⟨_, -, h⟩ := bind_ok h
  refine ⟨isRole_of_roleArn (present_ok hadmin),
    isRole_of_roleArn (present_ok hparent), ?_⟩
  cases key with
  | none =>
      obtain ⟨_, -, h⟩ := bind_ok h
      injection h with h
      rw [← h]
  | some arn =>
      obtain ⟨_, -, h⟩ := bind_ok h
      obtain ⟨_, -, h⟩ := bind_ok h
      obtain ⟨_, -, h⟩ := bind_ok h
      obtain ⟨_, -, h⟩ := bind_ok h
      injection h with h
      rw [← h]

def derive : String := "kms:DeriveSharedSecret"

/-- The request derives. -/
def Derives (request : Request) : Prop :=
  lowered request.action = lowered derive

/-- The request shows the measurement. -/
def Shows (request : Request) (pcr0 : String) : Prop :=
  ∃ shown, request.context pcrKey = some shown ∧
    lowered shown = lowered pcr0

section

variable {kms : Engine}

/-- The statements here are about the key itself. -/
theorem applies_iff (laws : kms.Documented) {s : Statement} {request : Request}
    (h : s.resource = "*") :
    kms.applies s request = true ↔
      kms.covers s.principal request.principal = true ∧
      (∃ action ∈ s.actions, kms.names action request.action = true) ∧
      ∀ condition ∈ s.conditions,
        kms.holds condition request.context = true := by
  have hall : kms.reaches s.resource request.resource = true := by
    rw [h]
    exact laws.anything _
  rw [laws.applies_iff, hall]
  simp only [true_and]

theorem names_derive (laws : kms.Documented) {request : Request} :
    kms.names derive request.action = true ↔ Derives request :=
  laws.names_iff derive request.action (by decide)

theorem administration_applies (laws : kms.Documented) {admin : String}
    {request : Request} (h : IsRole admin) :
    kms.applies (administration admin) request = true ↔
      request.principal = admin ∧
      ∃ action ∈ (administration admin).actions,
        lowered request.action = lowered action := by
  have hliteral : ∀ action ∈ (administration admin).actions,
      literal action.toList = true := by
    simp only [administration]
    decide
  have haction : ∀ action ∈ (administration admin).actions,
      (kms.names action request.action = true ↔
        lowered request.action = lowered action) :=
    fun action hmem => laws.names_iff action _ (hliteral action hmem)
  rw [applies_iff laws rfl, show (administration admin).principal = .aws admin
    from rfl, laws.role admin _ h]
  simp only [show (administration admin).conditions = [] from rfl,
    List.not_mem_nil, false_implies, implies_true, and_true]
  refine and_congr_right fun _ => ?_
  constructor
  · rintro ⟨action, hmem, hcovers⟩
    exact ⟨action, hmem, (haction action hmem).mp hcovers⟩
  · rintro ⟨action, hmem, heq⟩
    exact ⟨action, hmem, (haction action hmem).mpr heq⟩

/-- What the parent may derive with. -/
structure Derivable (parent pcr0 : String) (request : Request) : Prop where
  principal : request.principal = parent
  derives : Derives request
  measured : Shows request pcr0
  algorithm : request.context "kms:KeyAgreementAlgorithm" = some "ECDH"
  spec : request.context "kms:KeySpec" = some "ECC_NIST_P256"
  usage : request.context "kms:KeyUsage" = some "KEY_AGREEMENT"

theorem derivation_applies (laws : kms.Documented) {parent pcr0 : String}
    {request : Request} (h : IsRole parent) :
    kms.applies (derivation parent (lower pcr0)) request = true ↔
      Derivable parent pcr0 request := by
  rw [applies_iff laws rfl]
  simp only [derivation, laws.role parent _ h, List.mem_singleton,
    exists_eq_left, List.forall_mem_cons, forall_eq, laws.stringEquals,
    laws.ignoreCase, lowered_lower]
  constructor
  · rintro ⟨hp, ha, hshown, halg, hspec, husage⟩
    exact ⟨hp, (names_derive laws).mp ha, hshown, halg, hspec, husage⟩
  · rintro ⟨hp, ha, hshown, halg, hspec, husage⟩
    exact ⟨hp, (names_derive laws).mpr ha, hshown, halg, hspec, husage⟩

/-- A denial touches only derivations, and none that shows the
measurement. -/
theorem denial_silent (laws : kms.Documented) {sid pcr0 : String}
    {request : Request} {condition : Condition}
    (hc : condition = ⟨.null, pcrKey, "true"⟩ ∨
      condition = ⟨.stringNotEqualsIgnoreCase, pcrKey, lower pcr0⟩)
    (h : ¬ Derives request ∨ Shows request pcr0) :
    kms.applies (denial sid condition) request = false := by
  rw [← Bool.not_eq_true, applies_iff laws rfl]
  rintro ⟨-, ⟨action, hmem, hcovers⟩, hholds⟩
  rw [List.mem_singleton.mp hmem] at hcovers
  have hholds := hholds condition (List.mem_singleton.mpr rfl)
  rcases h with h | ⟨shown, hshown, heq⟩
  · exact h ((names_derive laws).mp hcovers)
  · rcases hc with rfl | rfl
    · rw [laws.null, hshown] at hholds
      cases hholds
    · rw [laws.notIgnoreCase, lowered_lower] at hholds
      exact hholds ⟨shown, hshown, heq⟩

/-- What the four statements authorize. -/
theorem authorizes_statements (laws : kms.Documented)
    {admin parent pcr0 : String} (hadmin : IsRole admin)
    (hparent : IsRole parent) {request : Request} :
    kms.authorizes [administration admin, derivation parent (lower pcr0),
        denial "DenyDerivationWithoutRecipientAttestation"
          ⟨.null, pcrKey, "true"⟩,
        denial "DenyDerivationOutsideMeasuredEnclave"
          ⟨.stringNotEqualsIgnoreCase, pcrKey, lower pcr0⟩] request = true ↔
      (request.principal = admin ∧
        ∃ action ∈ (administration admin).actions,
          lowered request.action = lowered action) ∨
      Derivable parent pcr0 request := by
  have hother : ∀ action ∈ (administration admin).actions,
      lowered action ≠ lowered derive := by
    simp only [administration]
    decide
  rw [laws.authorizes_iff]
  constructor
  · rintro ⟨⟨s, hs, hallow, happlies⟩, -⟩
    simp only [List.mem_cons, List.not_mem_nil, or_false] at hs
    rcases hs with rfl | rfl | rfl | rfl
    · exact .inl ((administration_applies laws hadmin).mp happlies)
    · exact .inr ((derivation_applies laws hparent).mp happlies)
    · cases hallow
    · cases hallow
  · intro hcase
    have hquiet : ¬ Derives request ∨ Shows request pcr0 := by
      rcases hcase with ⟨-, action, hmem, heq⟩ | hderivable
      · exact .inl fun hderives => hother action hmem (heq.symm.trans hderives)
      · exact .inr hderivable.measured
    refine ⟨?_, ?_⟩
    · rcases hcase with hadministers | hderivable
      · exact ⟨administration admin, by simp, rfl,
          (administration_applies laws hadmin).mpr hadministers⟩
      · exact ⟨derivation parent (lower pcr0), by simp, rfl,
          (derivation_applies laws hparent).mpr hderivable⟩
    · intro s hs hdeny
      simp only [List.mem_cons, List.not_mem_nil, or_false] at hs
      rcases hs with rfl | rfl | rfl | rfl
      · cases hdeny
      · cases hdeny
      · exact denial_silent laws (.inl rfl) hquiet
      · exact denial_silent laws (.inr rfl) hquiet

end

/-- For every policy that `build_policy` writes and every request: KMS, as it
is documented, authorizes it exactly when the administrator asks for one of
the listed administrative actions, or the parent asks to derive with the
measurement, the algorithm, the key and the usage of the policy. -/
theorem policy_exact (kms : Engine) (laws : kms.Documented)
    (admin parent pcr0 : String) (key : Option String) (policy : Policy)
    (h : buildPolicy admin parent pcr0 key = .ok policy) (request : Request) :
    kms.authorizes policy.statement request = true ↔
      (request.principal = admin ∧
        ∃ action ∈ (administration admin).actions,
          lowered request.action = lowered action) ∨
      Derivable parent pcr0 request := by
  obtain ⟨hadmin, hparent, hstatement⟩ := buildPolicy_ok h
  rw [hstatement]
  exact authorizes_statements laws hadmin hparent

end KeyPolicy

namespace Regtest

def adminRole : String := "arn:aws:iam::123456789012:role/admin"

def parentRole : String := "arn:aws:iam::123456789012:role/parent"

theorem roleArn_roles :
    KeyPolicy.roleArn adminRole = some "123456789012" ∧
      KeyPolicy.roleArn parentRole = some "123456789012" ∧
      adminRole ≠ parentRole := by
  decide +kernel

def keyArn : String :=
  "arn:aws:kms:us-east-1:123456789012:key/12345678-1234-1234-1234-123456789abc"

theorem keyArn_key :
    KeyPolicy.keyArn keyArn = some ("us-east-1".toList, "123456789012") := by
  decide +kernel

/-- The text of a register of one digit. -/
def register (c : Char) : String := String.ofList (List.replicate 96 c)

theorem length_register (c : Char) : (register c).toList.length = 96 := by
  rw [register, String.toList_ofList, List.length_replicate]

theorem hex96_register {c : Char} (h : (hexValue c).isSome = true) :
    hex96 (register c) = true := by
  rw [hex96, length_register, register, String.toList_ofList]
  simp [h]

theorem intBase16_register {c : Char} (hc : c = 'a' ∨ c = 'B' ∨ c = '7') :
    Initialize.intBase16 (register c) ≠ 0 := by
  rw [Initialize.intBase16, register, String.toList_ofList]
  rcases hc with rfl | rfl | rfl <;> decide +kernel

theorem buildPolicy_register :
    ∃ policy, KeyPolicy.buildPolicy adminRole parentRole (register 'B')
      (some keyArn) = .ok policy := by
  obtain ⟨hadmin, hparent, hne⟩ := roleArn_roles
  have hnumber := bne_iff_ne.mpr (intBase16_register (.inr (.inl rfl)))
  have hhex := hex96_register (rfl : (hexValue 'B').isSome = true)
  unfold KeyPolicy.buildPolicy
  simp only [hadmin, hparent, keyArn_key, present, ok_bind, beq_self_eq_true,
    require_true, bne_iff_ne.mpr hne, hhex, hnumber, Bool.and_self]
  exact ⟨_, rfl⟩

end Regtest

theorem KeyPolicy.policy_exact_regtest :
    ∃ policy, KeyPolicy.buildPolicy Regtest.adminRole Regtest.parentRole
        (Regtest.register 'B') (some Regtest.keyArn) = .ok policy ∧
      ∀ request, plain.authorizes policy.statement request = true ↔
        (request.principal = Regtest.adminRole ∧
          ∃ action ∈ (KeyPolicy.administration Regtest.adminRole).actions,
            lowered request.action = lowered action) ∨
        KeyPolicy.Derivable Regtest.parentRole (Regtest.register 'B')
          request := by
  obtain ⟨policy, hpolicy⟩ := Regtest.buildPolicy_register
  exact ⟨policy, hpolicy, KeyPolicy.policy_exact plain plain_documented _ _ _ _
    policy hpolicy⟩

namespace KeyPolicy

/-- A measurement that passed once passes again. -/
theorem exists_policy {admin parent account pcr0 : String}
    (hadmin : roleArn admin = some account)
    (hparent : roleArn parent = some account) (hne : admin ≠ parent)
    (hhex : hex96 pcr0 = true) (hnumber : Initialize.intBase16 pcr0 ≠ 0) :
    ∃ policy, buildPolicy admin parent pcr0 none = .ok policy := by
  unfold buildPolicy
  simp only [hadmin, hparent, present, ok_bind, beq_self_eq_true,
    require_true, bne_iff_ne.mpr hne, hhex, bne_iff_ne.mpr hnumber,
    Bool.and_self]
  exact ⟨_, rfl⟩

end KeyPolicy

/-! ## The measurements -/

namespace Build

theorem hexValue_toLower {c : Char} (h : (hexValue c).isSome = true) :
    hexValue c.toLower = hexValue c ∧
      hexAlphabet.contains c.toLower = true := by
  have hsmall : c.toNat < 128 := by
    unfold hexValue at h
    split at h
    · next hc => exact Nat.lt_of_le_of_lt hc.2 (by decide)
    · split at h
      · next hc => exact Nat.lt_of_le_of_lt hc.2 (by decide)
      · split at h
        · next hc => exact Nat.lt_of_le_of_lt hc.2 (by decide)
        · cases h
  have hall : ∀ n < 128, (hexValue (Char.ofNat n)).isSome = true →
      hexValue (Char.ofNat n).toLower = hexValue (Char.ofNat n) ∧
        hexAlphabet.contains (Char.ofNat n).toLower = true := by decide
  have hc := hall c.toNat hsmall
  rw [Char.ofNat_toNat] at hc
  exact hc h

/-- Digits of which two make a byte. -/
theorem exists_unhexChars {cs : List Char} {n : Nat}
    (hall : (cs.all fun c => (hexValue c).isSome) = true)
    (hlength : cs.length = 2 * n) :
    ∃ bs, unhexChars cs = some bs ∧ bs.length = n := by
  induction n generalizing cs with
  | zero =>
      rw [List.eq_nil_of_length_eq_zero hlength]
      exact ⟨[], rfl, rfl⟩
  | succ n ih =>
      match cs, hlength with
      | high :: low :: rest, hlength =>
          simp only [List.all_cons, Bool.and_eq_true] at hall
          obtain ⟨h, hh⟩ := Option.isSome_iff_exists.mp hall.1
          obtain ⟨l, hl⟩ := Option.isSome_iff_exists.mp hall.2.1
          obtain ⟨bs, hbs, hn⟩ := ih hall.2.2 (by
            simp only [List.length_cons] at hlength
            omega)
          refine ⟨UInt8.ofNat (16 * h + l) :: bs, ?_, by simp [hn]⟩
          rw [unhexChars, hh, hl, hbs]
          rfl

theorem foldl_zeros {cs : List Char} (h : ∀ c ∈ cs, c = '0') :
    cs.foldl (fun n c => 16 * n + (hexValue c).getD 0) 0 = 0 := by
  induction cs with
  | nil => rfl
  | cons c cs ih =>
      rw [h c List.mem_cons_self]
      exact ih fun d hd => h d (List.mem_cons_of_mem c hd)

/-- A text that is the measurement of a register: 48 bytes, not all zero, in
lowercase. -/
structure Spells (text : String) (register : Bytes) : Prop where
  bytes : unhexChars text.toList = some register
  length : register.length = 48
  nonzero : (register.any (· != 0)) = true
  hex : hex96 text = true
  digits : hexChars register = text.toList
  lowered : lowered text = text.toList
  number : Initialize.intBase16 text ≠ 0

theorem exists_spells {value : String} (hhex : hex96 value = true)
    (hnumber : Initialize.intBase16 value ≠ 0) :
    ∃ register, Spells (lower value) register := by
  have hlower : (lower value).toList = value.toList.map Char.toLower := by
    rw [lower, String.toList_ofList, lowered]
  rw [hex96, Bool.and_eq_true, beq_iff_eq] at hhex
  obtain ⟨hlength, hall⟩ := hhex
  have hdigits : ∀ c ∈ value.toList, hexValue c.toLower = hexValue c ∧
      hexAlphabet.contains c.toLower = true :=
    fun c hc => hexValue_toLower (List.all_eq_true.mp hall c hc)
  have hall' : ((lower value).toList.all fun c => (hexValue c).isSome)
      = true := by
    rw [hlower, List.all_map, List.all_eq_true]
    intro c hc
    rw [Function.comp_apply, (hdigits c hc).1]
    exact List.all_eq_true.mp hall c hc
  have hlength' : (lower value).toList.length = 96 := by
    rw [hlower, List.length_map, hlength]
  have hnumber' : Initialize.intBase16 (lower value)
      = Initialize.intBase16 value := by
    rw [Initialize.intBase16, Initialize.intBase16, hlower, List.foldl_map]
    refine List.foldl_ext _ _ 0 ?_
    intro n c hc
    rw [(hdigits c hc).1]
  obtain ⟨register, hbytes, hsize⟩ :=
    exists_unhexChars hall' (hlength'.trans (by decide : 96 = 2 * 48))
  have htext : hexChars register = (lower value).toList := by
    refine hexChars_unhexChars hbytes ?_
    intro c hc
    rw [hlower] at hc
    obtain ⟨d, hd, rfl⟩ := List.mem_map.mp hc
    exact List.contains_iff_mem.mp (hdigits d hd).2
  rw [← hnumber'] at hnumber
  refine ⟨register, hbytes, hsize, ?_, ?_, htext, ?_, hnumber⟩
  · by_contra hzero
    rw [Bool.not_eq_true, List.any_eq_false] at hzero
    refine hnumber (foldl_zeros ?_)
    rw [← htext]
    intro c hc
    obtain ⟨b, hb, hc⟩ := List.mem_flatMap.mp hc
    have hzero := hzero b hb
    rw [bne_iff_ne, Decidable.not_not] at hzero
    rw [hzero] at hc
    have hdigits : hexByte 0 = ['0', '0'] := by decide
    rw [hdigits] at hc
    simpa using hc
  · rw [hex96, Bool.and_eq_true, beq_iff_eq]
    exact ⟨hlength', hall'⟩
  · rw [lowered_lower, hlower, lowered]

variable {T : Types} {V : VerifierCrates T}

theorem measurement_ok {path name value : String} {values : Members}
    (h : measurement path values name = .ok value) :
    ∃ register, Spells value register := by
  unfold measurement at h
  obtain ⟨found, -, h⟩ := bind_ok h
  obtain ⟨_, hhex, h⟩ := bind_ok h
  obtain ⟨_, hnumber, h⟩ := bind_ok h
  injection h with h
  rw [← h]
  exact exists_spells (require_ok hhex) (bne_iff_ne.mp (require_ok hnumber))

theorem measurements_ok {path encoded : String} {m : Measurements}
    (h : measurements V path encoded = .ok m) :
    ∃ r0 r1 r2, Spells m.pcr0 r0 ∧ Spells m.pcr1 r1 ∧ Spells m.pcr2 r2 := by
  unfold measurements at h
  obtain ⟨_, -, h⟩ := bind_ok h
  split at h
  · cases h
  · obtain ⟨pcr0, h0, h⟩ := bind_ok h
    obtain ⟨pcr1, h1, h⟩ := bind_ok h
    obtain ⟨pcr2, h2, h⟩ := bind_ok h
    injection h with h
    obtain ⟨r0, hr0⟩ := measurement_ok h0
    obtain ⟨r1, hr1⟩ := measurement_ok h1
    obtain ⟨r2, hr2⟩ := measurement_ok h2
    rw [← h]
    exact ⟨r0, r1, r2, hr0, hr1, hr2⟩
  · cases h

/-- A request to derive that the parent sends with this document, which
reports its first register. -/
structure Asks (parent : String) (document : Pairs)
    (reported : Bytes) (request : Request) : Prop where
  principal : request.principal = parent
  derives : KeyPolicy.Derives request
  algorithm : request.context "kms:KeyAgreementAlgorithm" = some "ECDH"
  spec : request.context "kms:KeySpec" = some "ECC_NIST_P256"
  usage : request.context "kms:KeyUsage" = some "KEY_AGREEMENT"
  register : ∃ pcrs registers, document.item "pcrs" = .ok pcrs ∧
    Verifier.registersOf pcrs = .ok registers ∧
    (registers.at 0).bind Value.bytes? = some reported
  shown : ∃ shown, request.context KeyPolicy.pcrKey = some shown ∧
    lowered shown = hexChars reported

/-- KMS authorizes by the register, as the policy has it from the text. -/
theorem Asks.authorizes_iff {kms : Engine} (laws : kms.Documented)
    {admin parent text : String} {document : Pairs}
    {reported register : Bytes} {request : Request}
    (h : Asks parent document reported request) (hadmin : IsRole admin)
    (hparent : IsRole parent) (hne : admin ≠ parent)
    (hspells : Spells text register) :
    kms.authorizes [KeyPolicy.administration admin,
        KeyPolicy.derivation parent (lower text),
        KeyPolicy.denial "DenyDerivationWithoutRecipientAttestation"
          ⟨.null, KeyPolicy.pcrKey, "true"⟩,
        KeyPolicy.denial "DenyDerivationOutsideMeasuredEnclave"
          ⟨.stringNotEqualsIgnoreCase, KeyPolicy.pcrKey, lower text⟩] request
        = true ↔ reported = register := by
  obtain ⟨shown, hcontext, hshown⟩ := h.shown
  have hdigits : lowered text = hexChars register :=
    hspells.lowered.trans hspells.digits.symm
  rw [KeyPolicy.authorizes_statements laws hadmin hparent]
  constructor
  · rintro (⟨hprincipal, -⟩ | hderivable)
    · exact absurd (hprincipal.symm.trans h.principal) hne
    · obtain ⟨found, hfound, heq⟩ := hderivable.measured
      rw [hcontext] at hfound
      injection hfound with hfound
      rw [← hfound, hshown, hdigits] at heq
      exact hexChars_inj heq
  · rintro rfl
    exact .inr ⟨h.principal, h.derives, ⟨shown, hcontext,
      hshown.trans hdigits.symm⟩, h.algorithm, h.spec, h.usage⟩

/-- The verifier's round for the first register. -/
theorem Asks.checkPin_iff {parent text : String} {document : Pairs}
    {reported register : Bytes} {request : Request}
    (h : Asks parent document reported request)
    (hspells : Spells text register) :
    Verifier.checkPin document (0, register) = .ok () ↔
      reported = register := by
  obtain ⟨pcrs, registers, hpcrs, hregisters, hreported⟩ := h.register
  unfold Verifier.checkPin
  simp only [hspells.length, hspells.nonzero, beq_self_eq_true, Bool.and_self,
    require_true, ok_bind, hpcrs, hregisters, hreported]
  constructor
  · intro hok
    have heq := require_ok hok
    rw [beq_iff_eq] at heq
    exact Option.some.inj heq
  · rintro rfl
    rw [beq_self_eq_true, require_true]

/-- Whatever measurements a build reports: they are pins that
`verify-attestation.py` takes, and a policy can be written with the first of
them; and KMS authorizes the parent's derivation for an enclave exactly when
a verifier accepts that enclave's first register. -/
theorem measured_agree (V : VerifierCrates T) (kms : Engine)
    (laws : kms.Documented) (path encoded : String) (m : Measurements)
    (hm : measurements V path encoded = .ok m)
    (account admin parent : String)
    (hadmin : KeyPolicy.roleArn admin = some account)
    (hparent : KeyPolicy.roleArn parent = some account)
    (hne : admin ≠ parent) :
    ∃ policy pins register,
      KeyPolicy.buildPolicy admin parent m.pcr0 none = .ok policy ∧
      m.pins = some pins ∧ Verifier.allPinned pins = true ∧
      (∀ pin ∈ pins, (pin.2.length == 48 && pin.2.any (· != 0)) = true) ∧
      (0, register) ∈ pins ∧
      ∀ document reported request, Asks parent document reported request →
        (kms.authorizes policy.statement request = true ↔
          Verifier.checkPin document (0, register) = .ok ()) := by
  obtain ⟨r0, r1, r2, h0, h1, h2⟩ := measurements_ok hm
  obtain ⟨policy, hpolicy⟩ :=
    KeyPolicy.exists_policy hadmin hparent hne h0.hex h0.number
  obtain ⟨hadmin', hparent', hstatement⟩ := KeyPolicy.buildPolicy_ok hpolicy
  refine ⟨policy, [(0, r0), (1, r1), (2, r2)], r0, hpolicy, ?_, rfl, ?_,
    List.mem_cons_self, ?_⟩
  · rw [Measurements.pins, h0.bytes, h1.bytes, h2.bytes]
    rfl
  · intro pin hpin
    simp only [List.mem_cons, List.not_mem_nil, or_false] at hpin
    rcases hpin with rfl | rfl | rfl
    · rw [h0.length, h0.nonzero]
      rfl
    · rw [h1.length, h1.nonzero]
      rfl
    · rw [h2.length, h2.nonzero]
      rfl
  · intro document reported request hasks
    rw [hstatement, hasks.authorizes_iff laws hadmin' hparent' hne h0,
      hasks.checkPin_iff h0]

end Build

namespace Regtest

/-- The members of `pcr.json`. -/
def registers : Members :=
  [("PCR0", .str (register 'a')), ("PCR1", .str (register 'B')),
    ("PCR2", .str (register '7'))]

theorem measurement_register {name : String} {c : Char}
    (hget : Json.get registers name = some (.str (register c)))
    (hhex : (hexValue c).isSome = true)
    (hc : c = 'a' ∨ c = 'B' ∨ c = '7') :
    Build.measurement "pcr.json" registers name
      = .ok (lower (register c)) := by
  have hnumber := bne_iff_ne.mpr (intBase16_register hc)
  rw [Build.measurement, hget]
  simp only [Option.bind_some, Json.str?, present, ok_bind,
    hex96_register hhex, require_true, hnumber]
  rfl

theorem length_registers :
    (printed (.obj registers)).toList.length ≤ 16384 := by
  have hnames : ∀ name ∈ ["PCR0", "PCR1", "PCR2"],
      name.toList.length = 4 := by decide
  simp only [List.forall_mem_cons] at hnames
  rw [printed, String.toList_ofList]
  refine Nat.le_trans (JsonText.length_render_le _ 0 _) ?_
  simp only [registers, JsonText.weight, JsonText.weightMembers,
    length_register]
  omega

theorem measurements_registers :
    Build.measurements verifier "pcr.json" (printed (.obj registers))
      = .ok ⟨lower (register 'a'), lower (register 'B'),
        lower (register '7')⟩ := by
  have hload : verifier.loads (printed (.obj registers))
      = some (.obj registers) :=
    loads_text verifier rfl (by simp [registers])
  have h0 := @measurement_register "PCR0" 'a' rfl rfl (.inl rfl)
  have h1 := @measurement_register "PCR1" 'B' rfl rfl (.inr (.inl rfl))
  have h2 := @measurement_register "PCR2" '7' rfl rfl (.inr (.inr rfl))
  rw [Build.measurements, decide_eq_true length_registers, require_true,
    ok_bind, hload]
  simp only [h0, h1, h2, ok_bind]
  rfl

end Regtest

theorem Build.measured_agree_regtest :
    ∃ m, Build.measurements Regtest.verifier "pcr.json"
        (Regtest.printed (.obj Regtest.registers)) = .ok m ∧
    ∃ policy pins register,
      KeyPolicy.buildPolicy Regtest.adminRole Regtest.parentRole m.pcr0 none
        = .ok policy ∧
      m.pins = some pins ∧ Verifier.allPinned pins = true ∧
      (∀ pin ∈ pins, (pin.2.length == 48 && pin.2.any (· != 0)) = true) ∧
      (0, register) ∈ pins ∧
      ∀ document reported request,
        Build.Asks Regtest.parentRole document reported request →
        (plain.authorizes policy.statement request = true ↔
          Verifier.checkPin document (0, register) = .ok ()) := by
  obtain ⟨hadmin, hparent, hne⟩ := Regtest.roleArn_roles
  exact ⟨_, Regtest.measurements_registers,
    Build.measured_agree Regtest.verifier plain plain_documented _ _ _
      Regtest.measurements_registers _ _ _ hadmin hparent hne⟩

end SapioTee
