import SapioTee.Lib.JsonShape
import SapioTee.Model.Verifier

/-!
# Profiles compared (`scripts/verify-attestation.py`)

The verifier compares the profile an enclave attests with the one it expects
by Python's `==`, after it has validated both. `profileShape` is what the
validation pins of the types: every leaf of every entry is a text, an integer
or a truth value, and which of them is said by its place. Two accepted
profiles that compare equal are then one value, and an identity that is
returned is fixed by the expected settings and profile but for its key.
-/

namespace SapioTee

open Lib

/-! ## What an accepted profile is -/

def inlineShape : Shape :=
  .fields [("id", .text), ("wasm_version", .integer)]

def registeredShape : Shape :=
  .fields [("id", .text), ("wasm_version", .integer), ("name", .text)]

def arkShape : Shape :=
  .fields [("protocol", .text), ("max_pending_sessions", .integer),
    ("max_sessions_per_user", .integer), ("session_lifetime_secs", .integer),
    ("native_ownership_policy", .truth)]

def profileShape : Shape :=
  .fields [("protocol", .text), ("inline_evaluators", .items inlineShape),
    ("registered_evaluators", .items registeredShape),
    ("max_connections", .integer), ("request_timeout_secs", .integer),
    ("ark_signing", arkShape)]

/-- The rule for a `for` that only checks. -/
theorem forIn_ok {ε α : Type} {P : α → Prop} {l : List α}
    {body : α → PUnit → Except ε (ForInStep PUnit)} {u : PUnit}
    (hbody : ∀ a step, body a () = .ok step → step = .yield () ∧ P a)
    (h : forIn l () body = .ok u) : ∀ a ∈ l, P a := by
  induction l with
  | nil =>
      intro a ha
      cases ha
  | cons b l ih =>
      rw [List.forIn_cons] at h
      obtain ⟨step, hstep, h⟩ := bind_ok h
      obtain ⟨rfl, hb⟩ := hbody b step hstep
      intro a ha
      rcases List.mem_cons.mp ha with rfl | ha
      · exact hb
      · exact ih h a ha

/-- The rule for a fold that checks each element. -/
theorem foldlM_ok {ε α β : Type} {P : α → Prop} {l : List α}
    {f : β → α → Except ε β} {b c : β}
    (hstep : ∀ b a c, f b a = .ok c → P a) (h : l.foldlM f b = .ok c) :
    ∀ a ∈ l, P a := by
  induction l generalizing b with
  | nil =>
      intro a ha
      cases ha
  | cons d l ih =>
      rw [List.foldlM_cons] at h
      obtain ⟨next, hnext, h⟩ := bind_ok h
      intro a ha
      rcases List.mem_cons.mp ha with rfl | ha
      · exact hstep b a next hnext
      · exact ih h a ha

theorem fits_text {value : Json} {s : String} (h : value.str? = some s) :
    Shape.text.fits value = true := by
  rw [Json.eq_str h]
  rfl

theorem fits_integer {value : Json} {n : Int} (h : value.int? = some n) :
    Shape.integer.fits value = true := by
  rw [Json.eq_int h]
  rfl

/-- An object fits when it has the names and each value fits its own. -/
theorem fits_obj {names : List (String × Shape)} {members : Members}
    (hnames : Json.hasExactly (names.map Prod.fst) members = true)
    (hfields : ∀ f ∈ names, ∃ value, Json.get members f.1 = some value ∧
      f.2.fits value = true) :
    (Shape.fields names).fits (.obj members) = true := by
  rw [Shape.fits, hnames, Shape.fitsFields_iff.mpr hfields]
  rfl

theorem validateArkSigning_fits {value : Json} {u : Unit}
    (h : Verifier.validateArkSigning value = .ok u) :
    arkShape.fits value = true := by
  unfold Verifier.validateArkSigning at h
  obtain ⟨ark, hark, h⟩ := bind_ok h
  obtain ⟨protocol, hprotocol, h⟩ := bind_ok h
  obtain ⟨_, hname, h⟩ := bind_ok h
  obtain ⟨policy, hpolicy, h⟩ := bind_ok h
  obtain ⟨_, htrue, h⟩ := bind_ok h
  obtain ⟨_, hloop, -⟩ := bind_ok h
  have hlimits : ∀ limit ∈ [("max_pending_sessions", (256 : Int)),
      ("max_sessions_per_user", 8), ("session_lifetime_secs", 120)],
      ∃ value, Json.get ark limit.1 = some value ∧
        Shape.integer.fits value = true := by
    refine forIn_ok ?_ hloop
    intro limit step hstep
    obtain ⟨value, hvalue, hstep⟩ := bind_ok hstep
    obtain ⟨_, hint, hstep⟩ := bind_ok hstep
    injection hstep with hstep
    exact ⟨hstep.symm, value, item_ok hvalue,
      fits_integer (eq_of_beq (require_ok hint))⟩
  have htruth : Shape.truth.fits policy = true := by
    have htrue := require_ok htrue
    split at htrue
    · rfl
    · cases htrue
  obtain ⟨hvalue, hfields⟩ := dict_ok hark
  rw [hvalue]
  refine fits_obj hfields ?_
  simp only [List.forall_mem_cons, List.not_mem_nil, false_implies,
    implies_true, and_true] at hlimits ⊢
  exact ⟨⟨protocol, item_ok hprotocol,
    fits_text (eq_of_beq (require_ok hname))⟩, hlimits.1, hlimits.2.1,
    hlimits.2.2, policy, item_ok hpolicy, htruth⟩

/-- What every entry of a registry shows of its types. -/
theorem validateEvaluator_get {fields seen : List String} {entry : Json}
    {result : Members × String × Int}
    (h : Verifier.validateEvaluator fields seen entry = .ok result) :
    entry = .obj result.1 ∧ Json.hasExactly fields result.1 = true ∧
      (∃ value, Json.get result.1 "id" = some value ∧
        Shape.text.fits value = true) ∧
      ∃ value, Json.get result.1 "wasm_version" = some value ∧
        Shape.integer.fits value = true := by
  unfold Verifier.validateEvaluator at h
  obtain ⟨members, hmembers, h⟩ := bind_ok h
  obtain ⟨idValue, hid, h⟩ := bind_ok h
  obtain ⟨id, hstr, h⟩ := bind_ok h
  obtain ⟨_, -, h⟩ := bind_ok h
  obtain ⟨_, -, h⟩ := bind_ok h
  obtain ⟨versionValue, hversion, h⟩ := bind_ok h
  obtain ⟨version, hint, h⟩ := bind_ok h
  obtain ⟨_, -, h⟩ := bind_ok h
  injection h with h
  rw [← h]
  obtain ⟨hentry, hfields⟩ := dict_ok hmembers
  exact ⟨hentry, hfields, ⟨idValue, item_ok hid, fits_text (present_ok hstr)⟩,
    versionValue, item_ok hversion, fits_integer (present_ok hint)⟩

theorem validateInline_fits {seen kept : List String} {entry : Json}
    (h : Verifier.validateInline seen entry = .ok kept) :
    inlineShape.fits entry = true := by
  obtain ⟨result, hresult, -⟩ := bind_ok h
  obtain ⟨hentry, hfields, hid, hversion⟩ := validateEvaluator_get hresult
  rw [hentry]
  refine fits_obj hfields ?_
  simp only [List.forall_mem_cons, List.not_mem_nil, false_implies,
    implies_true, and_true]
  exact ⟨hid, hversion⟩

theorem nonblankStr_fits {value : Json} (h : nonblankStr value = true) :
    Shape.text.fits value = true := by
  cases value with
  | str s => rfl
  | _ => cases h

theorem validateRegistered_fits {seen kept : List String} {entry : Json}
    (h : Verifier.validateRegistered seen entry = .ok kept) :
    registeredShape.fits entry = true := by
  obtain ⟨result, hresult, h⟩ := bind_ok h
  obtain ⟨hentry, hfields, hid, hversion⟩ := validateEvaluator_get hresult
  obtain ⟨_, -, h⟩ := bind_ok h
  obtain ⟨name, hname, h⟩ := bind_ok h
  obtain ⟨_, hblank, -⟩ := bind_ok h
  rw [hentry]
  refine fits_obj hfields ?_
  simp only [List.forall_mem_cons, List.not_mem_nil, false_implies,
    implies_true, and_true]
  exact ⟨hid, hversion, name, item_ok hname,
    nonblankStr_fits (require_ok hblank)⟩

theorem boundedLimit_fits {value : Json}
    (h : Verifier.boundedLimit value = true) :
    Shape.integer.fits value = true := by
  cases value with
  | int n => rfl
  | _ => cases h

theorem registryEntries_ok {value : Json} {entries : List Json}
    (h : Verifier.registryEntries value = .ok entries) :
    value = .arr entries := by
  cases value with
  | arr items =>
      injection h with h
      rw [h]
  | _ => cases h

/-- Every leaf of an accepted profile is of the type its place has. -/
theorem validateProgramProfile_fits {profile : Json} {u : Unit}
    (h : Verifier.validateProgramProfile profile = .ok u) :
    profileShape.fits profile = true := by
  unfold Verifier.validateProgramProfile at h
  obtain ⟨members, hmembers, h⟩ := bind_ok h
  obtain ⟨protocol, hprotocol, h⟩ := bind_ok h
  obtain ⟨_, hname, h⟩ := bind_ok h
  obtain ⟨ark, hark, h⟩ := bind_ok h
  obtain ⟨_, harkFits, h⟩ := bind_ok h
  obtain ⟨inlineValue, hinline, h⟩ := bind_ok h
  obtain ⟨inline, hinlineItems, h⟩ := bind_ok h
  obtain ⟨seen, hinlineFold, h⟩ := bind_ok h
  obtain ⟨registryValue, hregistry, h⟩ := bind_ok h
  obtain ⟨registry, hregistryItems, h⟩ := bind_ok h
  obtain ⟨_, hregistryFold, h⟩ := bind_ok h
  obtain ⟨_, hloop, -⟩ := bind_ok h
  have hlimits : ∀ field ∈ ["max_connections", "request_timeout_secs"],
      ∃ value, Json.get members field = some value ∧
        Shape.integer.fits value = true := by
    refine forIn_ok ?_ hloop
    intro field step hstep
    obtain ⟨value, hvalue, hstep⟩ := bind_ok hstep
    obtain ⟨_, hlimit, hstep⟩ := bind_ok hstep
    injection hstep with hstep
    exact ⟨hstep.symm, value, item_ok hvalue,
      boundedLimit_fits (require_ok hlimit)⟩
  have hinlineFits : (Shape.items inlineShape).fits inlineValue = true := by
    rw [registryEntries_ok hinlineItems, Shape.fits, List.all_eq_true]
    exact foldlM_ok (fun _ _ _ h => validateInline_fits h) hinlineFold
  have hregistryFits :
      (Shape.items registeredShape).fits registryValue = true := by
    rw [registryEntries_ok hregistryItems, Shape.fits, List.all_eq_true]
    exact foldlM_ok (fun _ _ _ h => validateRegistered_fits h) hregistryFold
  obtain ⟨hprofile, hfields⟩ := dict_ok hmembers
  rw [hprofile]
  refine fits_obj hfields ?_
  simp only [List.forall_mem_cons, List.not_mem_nil, false_implies,
    implies_true, and_true] at hlimits ⊢
  exact ⟨⟨protocol, item_ok hprotocol,
    fits_text (eq_of_beq (require_ok hname))⟩,
    ⟨inlineValue, item_ok hinline, hinlineFits⟩,
    ⟨registryValue, item_ok hregistry, hregistryFits⟩, hlimits.1, hlimits.2,
    ark, item_ok hark, validateArkSigning_fits harkFits⟩

/-! ## What an identity is fixed to -/

theorem validateSettings_members {settings : Json} {members : Members}
    (h : Verifier.validateSettings settings = .ok members) :
    settings = .obj members ∧ Json.hasExactly settingsFields members = true ∧
      ∀ m ∈ members, nonemptyStr m.2 = true := by
  unfold Verifier.validateSettings at h
  obtain ⟨kept, hkept, h⟩ := bind_ok h
  obtain ⟨_, hall, h⟩ := bind_ok h
  obtain ⟨_, -, h⟩ := bind_ok h
  obtain ⟨_, -, h⟩ := bind_ok h
  injection h with h
  rw [← h]
  obtain ⟨hsettings, hfields⟩ := dict_ok hkept
  exact ⟨hsettings, hfields, List.all_eq_true.mp (require_ok hall)⟩

theorem nonemptyStr_str {value : Json} (h : nonemptyStr value = true) :
    ∃ s, value = .str s := by
  cases value with
  | str s => exact ⟨s, rfl⟩
  | _ => cases h

/-- Settings that compare equal to validated ones are the same. -/
theorem settings_sortKeys_eq {published settings : Json} {members : Members}
    (hunique : published.unique = true)
    (hsettings : Verifier.validateSettings settings = .ok members)
    (h : Json.eq published settings = true) :
    published.sortKeys = settings.sortKeys := by
  obtain ⟨rfl, hfields, htext⟩ := validateSettings_members hsettings
  cases published with
  | obj xs =>
      rw [Json.unique, Bool.and_eq_true] at hunique
      have hnames := Json.hasExactly_of_eq (by decide)
        (of_decide_eq_true hunique.1) hfields h
      apply Json.sortKeys_obj_eq hnames hfields
      intro name hname
      obtain ⟨x, hx⟩ := Json.get_isSome
        ((Json.hasExactly_iff.mp hnames name).mpr hname)
      obtain ⟨y, hy, hxy⟩ := Json.eq_obj_get h hx
      obtain ⟨s, rfl⟩ := nonemptyStr_str (htext _ (Json.mem_of_get hy))
      rw [hx, hy, Json.eq_str_right hxy]
  | _ => cases h

theorem unique_get {members : Members} {name : String} {value : Json}
    (h : (Json.obj members).unique = true)
    (hget : Json.get members name = some value) : value.unique = true := by
  rw [Json.unique, Bool.and_eq_true] at h
  have hmem := Json.mem_of_get hget
  have hall := h.2
  clear h hget
  induction members with
  | nil => cases hmem
  | cons m members ih =>
      rw [Json.uniqueMembers, Bool.and_eq_true] at hall
      rcases List.mem_cons.mp hmem with rfl | hmem
      · exact hall.1
      · exact ih hmem hall.2

/-- The identity of a signer with these settings, this profile and a key. -/
def identityWith (settings programProfile xpub : Json) : Json :=
  .obj [("protocol", .str "sapio-tee/program-oracle/1"),
    ("mode", .str "nitro"), ("xpub", xpub), ("settings", settings),
    ("signing", programProfile)]

section

variable {T : Types} (V : VerifierCrates T)

theorem jsonValue_unique {text : String} {value : Json}
    (h : Verifier.jsonValue V text = .ok value) : value.unique = true := by
  unfold Verifier.jsonValue at h
  split at h
  · cases h
  · obtain ⟨_, hunique, h⟩ := bind_ok h
    injection h with h
    rw [← h]
    exact require_ok hunique

theorem profile_sortKeys_eq {p q : Json} {u v : Unit}
    (hp : Verifier.validateProgramProfile p = .ok u)
    (hq : Verifier.validateProgramProfile q = .ok v)
    (h : Json.eq q p = true) : q.sortKeys = p.sortKeys :=
  profileShape.sortKeys_eq q p (validateProgramProfile_fits hq)
    (validateProgramProfile_fits hp) h

theorem verifyIdentity_sortKeys {text : String}
    {settings programProfile identity : Json}
    (h : Verifier.verifyIdentity V text settings programProfile
      = .ok identity) :
    ∃ xpub, identity.sortKeys
      = (identityWith settings programProfile xpub).sortKeys := by
  unfold Verifier.verifyIdentity at h
  obtain ⟨_, hprofile, h⟩ := bind_ok h
  obtain ⟨expected, hexpected, h⟩ := bind_ok h
  obtain ⟨value, hvalue, h⟩ := bind_ok h
  obtain ⟨members, hmembers, h⟩ := bind_ok h
  obtain ⟨protocol, hprotocol, h⟩ := bind_ok h
  obtain ⟨mode, hmode, h⟩ := bind_ok h
  obtain ⟨_, hnames, h⟩ := bind_ok h
  obtain ⟨signing, hsigning, h⟩ := bind_ok h
  obtain ⟨_, hvalid, h⟩ := bind_ok h
  obtain ⟨_, hsame, h⟩ := bind_ok h
  obtain ⟨published, hpublished, h⟩ := bind_ok h
  obtain ⟨_, hsettings, h⟩ := bind_ok h
  obtain ⟨xpub, hxpub, h⟩ := bind_ok h
  obtain ⟨_, -, h⟩ := bind_ok h
  obtain ⟨_, -, h⟩ := bind_ok h
  injection h with h
  obtain ⟨hobj, hfields⟩ := dict_ok hmembers
  have hunique := jsonValue_unique V hvalue
  rw [hobj] at hunique
  obtain ⟨hprotocolText, hmodeText⟩ :=
    Bool.and_eq_true_iff.mp (require_ok hnames)
  have hsigningSame := profile_sortKeys_eq hprofile hvalid (require_ok hsame)
  have hsettingsSame := settings_sortKeys_eq
    (unique_get hunique (item_ok hpublished)) hexpected
    (require_ok hsettings)
  refine ⟨xpub, ?_⟩
  rw [← h, hobj]
  refine @Json.sortKeys_obj_eq identityFields _ _ hfields rfl ?_
  simp only [identityFields, List.forall_mem_cons, List.not_mem_nil,
    false_implies, implies_true, and_true]
  refine ⟨?_, ?_, ?_, ?_, ?_⟩
  · rw [item_ok hprotocol, Json.eq_str (eq_of_beq hprotocolText)]
    rfl
  · rw [item_ok hmode, Json.eq_str (eq_of_beq hmodeText)]
    rfl
  · rw [item_ok hxpub]
    rfl
  · rw [item_ok hpublished, Option.map_some, hsettingsSame]
    rfl
  · rw [item_ok hsigning, Option.map_some, hsigningSame]
    rfl

/-- Comparison of accepted profiles is exact, and what `verify` returns is
fixed but for the key. -/
theorem profile_comparison_exact :
    (∀ p q, Verifier.validateProgramProfile p = .ok () →
      Verifier.validateProgramProfile q = .ok () → Json.eq q p = true →
      q.sortKeys = p.sortKeys) ∧
    (∀ settings programProfile attested attested' identity identity',
      Verifier.verify V attested settings programProfile = .ok identity →
      Verifier.verify V attested' settings programProfile = .ok identity' →
      ∃ xpub xpub', identity.sortKeys
          = (identityWith settings programProfile xpub).sortKeys ∧
        identity'.sortKeys
          = (identityWith settings programProfile xpub').sortKeys) := by
  have hfixed : ∀ {settings programProfile attested identity},
      Verifier.verify V attested settings programProfile = .ok identity →
      ∃ xpub, identity.sortKeys
        = (identityWith settings programProfile xpub).sortKeys := by
    intro settings programProfile attested identity h
    obtain ⟨_, -, h⟩ := bind_ok h
    obtain ⟨_, -, h⟩ := bind_ok h
    obtain ⟨text, -, h⟩ := bind_ok h
    exact verifyIdentity_sortKeys V h
  refine ⟨?_, ?_⟩
  · intro p q hp hq h
    exact profile_sortKeys_eq hp hq h
  · intro settings programProfile attested attested' identity identity' h h'
    obtain ⟨xpub, hidentity⟩ := hfixed h
    obtain ⟨xpub', hidentity'⟩ := hfixed h'
    exact ⟨xpub, xpub', hidentity, hidentity'⟩

end

/-- A profile with one inline evaluator. -/
def smallProfile : Members :=
  [("protocol", .str "SignProgramV1"),
    ("inline_evaluators", .arr [.obj [
      ("id", .str (String.ofList (Verifier.zeros 64))),
      ("wasm_version", .int 1)]]),
    ("registered_evaluators", .arr []), ("max_connections", .int 64),
    ("request_timeout_secs", .int 10),
    ("ark_signing", .obj [("protocol", .str "sapio-ark/nested-signing/1"),
      ("max_pending_sessions", .int 256), ("max_sessions_per_user", .int 8),
      ("session_lifetime_secs", .int 120),
      ("native_ownership_policy", .bool true)])]

/-- The order of the members does not matter to either. -/
example : Verifier.validateProgramProfile (.obj smallProfile) = .ok () ∧
    Verifier.validateProgramProfile (.obj smallProfile.reverse) = .ok () ∧
    Json.eq (.obj smallProfile.reverse) (.obj smallProfile) = true := by
  decide +kernel

/-- A truth value in the place of an integer compares equal and is not
accepted. -/
example : Json.eq (.bool true) (.int 1) = true ∧
    Shape.integer.fits (.bool true) = false := by
  decide +kernel

end SapioTee
