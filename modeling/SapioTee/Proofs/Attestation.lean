import SapioTee.Model.Host
import SapioTee.Proofs.Record

/-!
# What the verifier has checked, and what it accepts

A response that the verifier accepts carries an envelope whose signature it
checked, and the document in that envelope shows the pinned registers, a time
near the verifier's, the verifier's own nonce, and the hash of the text it
returns the value of. In the other direction the response of an enclave that
has published is accepted, if the NSM and the certificates are as documented:
whatever the settings, the root, the nonce and the time within the window.
-/

namespace SapioTee

open Lib

namespace Verifier

variable {T : Types} {A : AttestationCrates} {V : VerifierCrates T}

/-! ## Inversion -/

theorem Pairs.item_ok {pairs : Pairs} {name : String} {value : Value}
    (h : pairs.item name = .ok value) : pairs.get name = some value := by
  rw [Pairs.item] at h
  split at h
  · next taken hget =>
      injection h with h
      rw [hget, h]
  · cases h

theorem cborValue_ok {raw : Bytes} {value : Value}
    (h : cborValue A raw = .ok value) : A.decode raw = .ok (value, []) := by
  obtain ⟨⟨taken, rest⟩, hdecode, h⟩ := bind_ok h
  obtain ⟨_, hrest, h⟩ := bind_ok h
  injection h with h
  subst h
  rw [outside_ok hdecode, List.isEmpty_iff.mp (require_ok hrest)]

theorem documentPairs_ok {document : Value} {pairs : Pairs}
    (h : documentPairs document = .ok pairs) : document = .dict pairs := by
  cases document with
  | dict taken =>
      injection h with h
      rw [h]
  | _ => cases h

/-- The payload of an envelope is the encoding of its document. -/
theorem envelope_ok {encoded : Bytes} {e : Envelope}
    (h : envelope A encoded = .ok e) :
    A.decode e.payload = .ok (.dict e.document, []) := by
  unfold envelope at h
  obtain ⟨_, -, h⟩ := bind_ok h
  obtain ⟨cose, -, h⟩ := bind_ok h
  obtain ⟨parts, -, h⟩ := bind_ok h
  obtain ⟨⟨header, unprotected, payload, signature⟩, -, h⟩ := bind_ok h
  obtain ⟨unprotected, -, h⟩ := bind_ok h
  obtain ⟨header, -, h⟩ := bind_ok h
  obtain ⟨algorithm, -, h⟩ := bind_ok h
  obtain ⟨_, -, h⟩ := bind_ok h
  obtain ⟨_, -, h⟩ := bind_ok h
  obtain ⟨signature, -, h⟩ := bind_ok h
  obtain ⟨payload, -, h⟩ := bind_ok h
  obtain ⟨document, hdocument, h⟩ := bind_ok h
  obtain ⟨pairs, hpairs, h⟩ := bind_ok h
  injection h with h
  subst h
  rw [← documentPairs_ok hpairs]
  exact cborValue_ok hdocument

/-- A document shows the pinned registers. -/
def Measured (document : Pairs) (pins : Pins) : Prop :=
  ∃ pcrs registers, document.get "pcrs" = some pcrs ∧
    pcrs.mapping? = some registers ∧
    ∀ pin ∈ pins, registers.at pin.1 = some (.bytes pin.2)

/-- What a document reports of the enclave it was made for. -/
structure Reports (document : Pairs) (pins : Pins) (time : Int)
    (nonce userData : Bytes) : Prop where
  digest : document.get "digest" = some (.str "SHA384")
  measured : Measured document pins
  timestamp : document.get "timestamp" = some (.int time)
  nonce : document.get "nonce" = some (.bytes nonce)
  userData : document.get "user_data" = some (.bytes userData)

/-- A document reports one time, one nonce and one user data. -/
theorem Reports.unique {document : Pairs} {pins pins' : Pins}
    {time time' : Int} {nonce nonce' userData userData' : Bytes}
    (h : Reports document pins time nonce userData)
    (h' : Reports document pins' time' nonce' userData') :
    time = time' ∧ nonce = nonce' ∧ userData = userData' := by
  have htime := h.timestamp
  have hnonce := h.nonce
  have huser := h.userData
  rw [h'.timestamp] at htime
  rw [h'.nonce] at hnonce
  rw [h'.userData] at huser
  simp only [Option.some.injEq, Value.int.injEq, Value.bytes.injEq] at *
  exact ⟨htime.symm, hnonce.symm, huser.symm⟩

theorem eq_bytes {value : Option Value} {bytes : Bytes}
    (h : value.bind Value.bytes? == some bytes) :
    value = some (.bytes bytes) := by
  obtain ⟨taken, htaken, hbytes⟩ :=
    Option.bind_eq_some_iff.mp (eq_of_beq h)
  cases taken with
  | bytes b =>
      injection hbytes with hbytes
      rw [htaken, hbytes]
  | _ => cases hbytes

theorem checkPin_ok {document : Pairs} {pin : Int × Bytes} {u : Unit}
    (h : checkPin document pin = .ok u) :
    ∃ pcrs registers, document.get "pcrs" = some pcrs ∧
      pcrs.mapping? = some registers ∧
      registers.at pin.1 = some (.bytes pin.2) := by
  unfold checkPin at h
  obtain ⟨_, -, h⟩ := bind_ok h
  obtain ⟨pcrs, hpcrs, h⟩ := bind_ok h
  obtain ⟨registers, hregisters, h⟩ := bind_ok h
  unfold registersOf at hregisters
  split at hregisters
  · next taken hmapping =>
      injection hregisters with hregisters
      subst hregisters
      exact ⟨pcrs, taken, Pairs.item_ok hpcrs, hmapping,
        eq_bytes (require_ok h)⟩
  · cases hregisters

theorem measured_of_pins {document : Pairs} {pins : Pins}
    (hall : allPinned pins = true)
    (h : ∀ pin ∈ pins, checkPin document pin = .ok ()) :
    Measured document pins := by
  obtain ⟨first, hfirst⟩ : ∃ pin, pin ∈ pins := by
    cases pins with
    | nil => cases hall
    | cons pin pins => exact ⟨pin, List.mem_cons_self⟩
  obtain ⟨pcrs, registers, hpcrs, hmapping, -⟩ := checkPin_ok (h first hfirst)
  refine ⟨pcrs, registers, hpcrs, hmapping, ?_⟩
  intro pin hpin
  obtain ⟨pcrs', registers', hpcrs', hmapping', hregister⟩ :=
    checkPin_ok (h pin hpin)
  rw [hpcrs] at hpcrs'
  injection hpcrs' with hpcrs'
  subst hpcrs'
  rw [hmapping] at hmapping'
  injection hmapping' with hmapping'
  rwa [hmapping']

theorem timely_ok {nowMs : Int} {value : Value}
    (h : timely nowMs value = true) :
    ∃ time, value = .int time ∧ nowMs - 300000 ≤ time ∧
      time ≤ nowMs + 5000 := by
  cases value with
  | int time =>
      simp only [timely, Bool.and_eq_true, decide_eq_true_eq] at h
      exact ⟨time, rfl, h⟩
  | _ => cases h

theorem responseMembers_ok {response : Json} {members : Members}
    (h : responseMembers response = .ok members) : response = .obj members := by
  cases response with
  | obj taken =>
      obtain ⟨_, -, h⟩ := bind_ok h
      injection h with h
      rw [h]
  | arr items =>
      simp only [responseMembers] at h
      split at h
      · cases h
      · split at h <;> cases h
  | _ => cases h

/-- The text a response gives for the identity. -/
def identityText : Json → Option String
  | .obj members => (Json.get members "identity_json").bind Json.str?
  | _ => none

/-- What stands behind a text that the verifier found attested. -/
theorem attested_ok {c : Challenge} {response : Json} {clock : Nat}
    {nowMs : Int} {text : String}
    (h : attested A V c response clock nowMs = .ok text) :
    identityText response = some text ∧
      ∃ members e time, presented A response = .ok (members, e) ∧
        authenticate A c.trustedRoot clock e = .ok () ∧
        A.decode e.payload = .ok (.dict e.document, []) ∧
        nowMs - 300000 ≤ time ∧ time ≤ nowMs + 5000 ∧
        Reports e.document c.pins time c.nonce
          (V.sha256 (utf8 text)).toList := by
  unfold attested at h
  obtain ⟨⟨members, e⟩, hpresented, h⟩ := bind_ok h
  obtain ⟨_, hauthentic, h⟩ := bind_ok h
  obtain ⟨_, hchecked, h⟩ := bind_ok h
  have hdecode : A.decode e.payload = .ok (.dict e.document, []) := by
    unfold presented at hpresented
    obtain ⟨_, -, hpresented⟩ := bind_ok hpresented
    obtain ⟨_, -, hpresented⟩ := bind_ok hpresented
    obtain ⟨_, -, hpresented⟩ := bind_ok hpresented
    obtain ⟨_, henvelope, hpresented⟩ := bind_ok hpresented
    injection hpresented with hpresented
    injection hpresented with _ he
    subst he
    exact envelope_ok henvelope
  have hmembers : response = .obj members := by
    unfold presented at hpresented
    obtain ⟨_, hmembers, hpresented⟩ := bind_ok hpresented
    obtain ⟨_, -, hpresented⟩ := bind_ok hpresented
    obtain ⟨_, -, hpresented⟩ := bind_ok hpresented
    obtain ⟨_, -, hpresented⟩ := bind_ok hpresented
    injection hpresented with hpresented
    injection hpresented with hm _
    rw [responseMembers_ok hmembers, hm]
  unfold checkDocument at hchecked
  obtain ⟨digest, hdigest, hchecked⟩ := bind_ok hchecked
  obtain ⟨_, hsha, hchecked⟩ := bind_ok hchecked
  obtain ⟨_, hall, hchecked⟩ := bind_ok hchecked
  obtain ⟨_, hpins, hchecked⟩ := bind_ok hchecked
  obtain ⟨timestamp, htimestamp, hchecked⟩ := bind_ok hchecked
  obtain ⟨_, htimely, hchecked⟩ := bind_ok hchecked
  obtain ⟨_, -, hnonce⟩ := bind_ok hchecked
  obtain ⟨time, rfl, hlow, hhigh⟩ := timely_ok (require_ok htimely)
  unfold boundIdentity at h
  obtain ⟨value, hvalue, h⟩ := bind_ok h
  obtain ⟨taken, htaken, h⟩ := bind_ok h
  obtain ⟨_, huser, h⟩ := bind_ok h
  injection h with h
  subst h
  refine ⟨?_, members, e, time, hpresented, hauthentic, hdecode, hlow, hhigh,
    ?_, measured_of_pins (require_ok hall) (forM_ok_iff.mp hpins),
    Pairs.item_ok htimestamp, eq_bytes (require_ok hnonce),
    eq_bytes (require_ok huser)⟩
  · rw [hmembers, identityText, item_ok hvalue, Option.bind_some]
    exact present_ok htaken
  · rw [Pairs.item_ok hdigest]
    cases digest with
    | str s => rw [Option.some.inj (eq_of_beq (require_ok hsha))]
    | _ => cases require_ok hsha

theorem jsonValue_ok {text : String} {value : Json}
    (h : jsonValue V text = .ok value) : V.loads text = some value := by
  unfold jsonValue at h
  split at h
  · cases h
  · next taken hload =>
      obtain ⟨_, -, h⟩ := bind_ok h
      injection h with h
      rw [hload, h]

/-- An accepted identity is the value of its text, with the settings and the
profile that were expected. -/
theorem verifyIdentity_ok {text : String} {settings profile identity : Json}
    (h : verifyIdentity V text settings profile = .ok identity) :
    V.loads text = some identity ∧
      ∃ members published signing, identity = .obj members ∧
        Json.get members "settings" = some published ∧
        Json.eq published settings = true ∧
        Json.get members "signing" = some signing ∧
        Json.eq signing profile = true := by
  unfold verifyIdentity at h
  obtain ⟨_, -, h⟩ := bind_ok h
  obtain ⟨expected, -, h⟩ := bind_ok h
  obtain ⟨value, hvalue, h⟩ := bind_ok h
  obtain ⟨members, hmembers, h⟩ := bind_ok h
  obtain ⟨protocol, -, h⟩ := bind_ok h
  obtain ⟨mode, -, h⟩ := bind_ok h
  obtain ⟨_, -, h⟩ := bind_ok h
  obtain ⟨signing, hsigning, h⟩ := bind_ok h
  obtain ⟨_, -, h⟩ := bind_ok h
  obtain ⟨_, hsame, h⟩ := bind_ok h
  obtain ⟨published, hpublished, h⟩ := bind_ok h
  obtain ⟨_, hsettings, h⟩ := bind_ok h
  obtain ⟨xpub, -, h⟩ := bind_ok h
  obtain ⟨network, -, h⟩ := bind_ok h
  obtain ⟨_, -, h⟩ := bind_ok h
  injection h with h
  subst h
  exact ⟨jsonValue_ok hvalue, members, published, signing, (dict_ok hmembers).1,
    item_ok hpublished, require_ok hsettings, item_ok hsigning,
    require_ok hsame⟩

variable {E : App.Enclave T}

/-- Python reads the identity an enclave publishes. -/
theorem loads_identity (laws : WireLaws E V) (l : App.Install E) :
    V.loads l.identity
      = some ((App.identityOf E l.oracle (some l.settings)).json V) :=
  loads_text V (laws.toJson_text l.identity_eq)
    (plain_identity V l.oracle l.settings)

/-- An identity that an enclave has published, accepted. -/
theorem verifyIdentity_published (laws : WireLaws E V) {l : App.Install E}
    {settings profile identity : Json}
    (h : verifyIdentity V l.identity settings profile = .ok identity) :
    identity = (App.identityOf E l.oracle (some l.settings)).json V ∧
      Json.eq l.settings.json settings = true ∧
      Json.eq (programProfile E.oracles).json profile = true := by
  obtain ⟨hload, members, published, signing, rfl, hpublished, hsettings,
    hsigning, hprofile⟩ := verifyIdentity_ok h
  rw [loads_identity laws] at hload
  have hmembers := Json.obj.inj (Option.some.inj hload)
  rw [← hmembers] at hpublished hsigning
  have hpublished' : some l.settings.json = some published := hpublished
  have hsigning' : some (programProfile E.oracles).json = some signing :=
    hsigning
  rw [Option.some.inj hpublished', Option.some.inj hsigning']
  exact ⟨(Option.some.inj hload).symm, hsettings, hprofile⟩

theorem verifyResponse_ok {c : Challenge} {response : Json} {clock : Nat}
    {nowMs : Int} {identity : Json}
    (h : verifyResponse A V c response clock nowMs = .ok identity) :
    ∃ text, attested A V c response clock nowMs = .ok text ∧
      verifyIdentity V text c.settings c.programProfile = .ok identity := by
  unfold verifyResponse verify at h
  obtain ⟨_, -, h⟩ := bind_ok h
  obtain ⟨_, -, h⟩ := bind_ok h
  obtain ⟨text, htext, h⟩ := bind_ok h
  exact ⟨text, htext, h⟩

/-! ## An honest response -/

/-- A COSE_Sign1 as the NSM documents it, tagged or not, that the crates take
apart into this envelope. -/
structure Encodes (A : AttestationCrates) (encoded : Bytes) (e : Envelope) :
    Prop where
  small : encoded.length ≤ 16384
  cose : A.decode encoded = .ok (.list [.bytes e.header, .dict [],
      .bytes e.payload, .bytes e.signature], []) ∨
    A.decode encoded = .ok (.tag 18 (.tuple [.bytes e.header, .frozendict [],
      .bytes e.payload, .bytes e.signature]), [])
  header : A.decode e.header = .ok (.dict [(.int 1, .int (-35))], [])
  payload : A.decode e.payload = .ok (.dict e.document, [])
  signature : e.signature.length = 96

/-- The certificates of a document lead to the trusted root at this time, and
the envelope is signed with the key of the first. -/
def Certified (A : AttestationCrates) (trustedRoot : Bytes) (clock : Nat)
    (e : Envelope) : Prop :=
  ∃ root certificate leaf bundle chain key,
    A.loadPem trustedRoot = .ok root ∧
    e.document.get "certificate" = some (.bytes certificate) ∧
    A.loadDer (.bytes certificate) = .ok leaf ∧
    e.document.get "cabundle" = some (.list bundle) ∧ bundle.length ≤ 10 ∧
    List.Forall₂ (fun item loaded => A.loadDer item = .ok loaded) bundle
      chain ∧
    A.verifyCertificate clock root leaf chain = .ok () ∧
    A.publicKey certificate = .ok (some key) ∧
    A.verifySignature key (beNat (e.signature.take 48))
      (beNat (e.signature.drop 48)) (signedMessage A e.header e.payload)
      = .ok ()

theorem cborValue_of {raw : Bytes} {value : Value}
    (h : A.decode raw = .ok (value, [])) : cborValue A raw = .ok value := by
  rw [cborValue, h]
  rfl

theorem envelope_of {encoded : Bytes} {e : Envelope}
    (h : Encodes A encoded e) : envelope A encoded = .ok e := by
  have hparts : ∀ cose inner unprotected,
      A.decode encoded = .ok (cose, []) → untagged cose = .ok inner →
      coseParts inner = .ok (.bytes e.header, unprotected, .bytes e.payload,
        .bytes e.signature) →
      unprotected.mapping? = some [] → envelope A encoded = .ok e := by
    intro cose inner unprotected hcose huntagged hinner hmapping
    have halgorithm : (Value.dict [(.int 1, .int (-35))]).isES384 = true :=
      rfl
    have hsignature : signatureBytes (.bytes e.signature)
        = .ok e.signature := by
      simp only [signatureBytes, Value.bytes?, present, ok_bind, h.signature,
        beq_self_eq_true, require_true]
      rfl
    rw [envelope, decide_eq_true h.small, require_true, ok_bind,
      cborValue_of hcose, ok_bind, huntagged, ok_bind, hinner, ok_bind]
    simp only [hmapping, present, cborInput, Value.bytes?, ok_bind,
      cborValue_of h.header, cborValue_of h.payload, halgorithm, require_true,
      hsignature, documentPairs]
    rfl
  rcases h.cose with hcose | hcose
  · exact hparts _ _ _ hcose rfl rfl rfl
  · exact hparts _ _ _ hcose rfl rfl rfl

theorem outside_of {α : Type} {x : Except String α} {a : α}
    (h : x = .ok a) : outside x = .ok a := by
  rw [h]
  rfl

theorem Pairs.item_of {pairs : Pairs} {name : String} {value : Value}
    (h : pairs.get name = some value) : pairs.item name = .ok value := by
  rw [Pairs.item, h]

theorem mapM_loadDer {bundle : List Value} {chain : List A.Certificate}
    (h : List.Forall₂ (fun item loaded => A.loadDer item = .ok loaded) bundle
      chain) :
    (bundle.mapM fun item => outside (A.loadDer item)) = .ok chain := by
  induction h with
  | nil => rfl
  | cons hitem _ ih =>
      rw [List.mapM_cons, outside_of hitem, ok_bind, ih]
      rfl

theorem authenticate_of {trustedRoot : Bytes} {clock : Nat} {e : Envelope}
    (h : Certified A trustedRoot clock e) :
    authenticate A trustedRoot clock e = .ok () := by
  obtain ⟨root, certificate, leaf, bundle, chain, key, hroot, hcertificate,
    hleaf, hbundle, hlength, hchain, hverified, hkey, hsigned⟩ := h
  have hitems : bundleItems (.list bundle) = .ok bundle := by
    simp only [bundleItems, decide_eq_true hlength, require_true, ok_bind]
    rfl
  rw [authenticate, outside_of hroot, ok_bind, Pairs.item_of hcertificate,
    ok_bind]
  simp only [Value.bytes?, present, ok_bind, outside_of hleaf,
    Pairs.item_of hbundle, hitems, mapM_loadDer hchain, outside_of hverified,
    outside_of hkey]
  exact outside_of hsigned

/-- A pin that the verifier takes. -/
def ValidPin (pin : Int × Bytes) : Prop :=
  pin.2.length = 48 ∧ pin.2.any (· != 0) = true

theorem checkDocument_of {document : Pairs} {pins : Pins} {time nowMs : Int}
    {nonce userData : Bytes} (h : Reports document pins time nonce userData)
    (hall : allPinned pins = true) (hvalid : ∀ pin ∈ pins, ValidPin pin)
    (hlow : nowMs - 300000 ≤ time) (hhigh : time ≤ nowMs + 5000)
    (hshort : 16 ≤ nonce.length) (hlong : nonce.length ≤ 64) :
    checkDocument nonce pins nowMs document = .ok () := by
  obtain ⟨pcrs, registers, hpcrs, hmapping, hregisters⟩ := h.measured
  have hpins : pins.forM (checkPin document) = .ok () := by
    refine forM_ok_iff.mpr ?_
    intro pin hpin
    obtain ⟨hlength, hnonzero⟩ := hvalid pin hpin
    rw [checkPin, hlength, hnonzero]
    simp only [beq_self_eq_true, Bool.and_self, require_true, ok_bind,
      Pairs.item_of hpcrs, registersOf, hmapping, hregisters pin hpin,
      Option.bind_some, Value.bytes?]
  have htimely : timely nowMs (.int time) = true := by
    simp [timely, hlow, hhigh]
  rw [checkDocument, Pairs.item_of h.digest, ok_bind]
  simp only [Value.str?, beq_self_eq_true, require_true, ok_bind, hall, hpins,
    Pairs.item_of h.timestamp, htimely, hshort, hlong, decide_true,
    Bool.and_self, h.nonce, Option.bind_some, Value.bytes?]

/-- What the route answers with. -/
def honestResponse (text : String) (encoded : Bytes) :
    App.AttestationResponse :=
  ⟨text, String.ofList (base64Chars encoded)⟩

theorem presented_of {encoded : Bytes} {e : Envelope} (text : String)
    (h : Encodes A encoded e) :
    presented A (honestResponse text encoded).json
      = .ok ([("identity_json", .str text),
          ("document", .str (String.ofList (base64Chars encoded)))], e) := by
  have hdecode : b64decode (.str (String.ofList (base64Chars encoded)))
      = .ok encoded := by
    rw [b64decode, String.toList_ofList, unbase64Chars_base64Chars]
  rw [presented, App.AttestationResponse.json, responseMembers]
  show (b64decode (.str (String.ofList (base64Chars encoded))) >>= _) = _
  rw [hdecode, ok_bind, envelope_of h]
  rfl

/-- The verifier finds the text of an honest response attested. -/
theorem attested_of {c : Challenge} {encoded : Bytes} {e : Envelope}
    {text : String} {clock : Nat} {time nowMs : Int}
    (hencodes : Encodes A encoded e)
    (hcertified : Certified A c.trustedRoot clock e)
    (hreports : Reports e.document c.pins time c.nonce
      (V.sha256 (utf8 text)).toList)
    (hall : allPinned c.pins = true) (hvalid : ∀ pin ∈ c.pins, ValidPin pin)
    (hlow : nowMs - 300000 ≤ time) (hhigh : time ≤ nowMs + 5000)
    (hshort : 16 ≤ c.nonce.length) (hlong : c.nonce.length ≤ 64) :
    attested A V c (honestResponse text encoded).json clock nowMs
      = .ok text := by
  rw [attested, presented_of text hencodes, ok_bind]
  simp only [authenticate_of hcertified, ok_bind, checkDocument_of hreports hall
    hvalid hlow hhigh hshort hlong, boundIdentity]
  show (require ((e.document.get "user_data").bind Value.bytes?
    == some (V.sha256 (utf8 text)).toList) _ >>= _) = _
  rw [hreports.userData, Option.bind_some, Value.bytes?, beq_self_eq_true]
  rfl

end Verifier

/-! ### The registers -/

/-- What a driver answers for a register. -/
def Nsm.Response.data : Nsm.Response → Bytes
  | .describePcr _ data => data
  | _ => []

/-- The registers a driver describes, as pins. -/
def Nsm.measurements (processRequest : Nat → Nsm.Response) : Verifier.Pins :=
  [(0, (processRequest 0).data), (1, (processRequest 1).data),
    (2, (processRequest 2).data)]

/-- A process that has opened the NSM can be pinned. -/
theorem Nsm.validPins_of_open {fd : Int}
    {processRequest : Nat → Nsm.Response} {u : Unit}
    (h : Nsm.open fd processRequest = .ok u) :
    Verifier.allPinned (Nsm.measurements processRequest) = true ∧
      ∀ pin ∈ Nsm.measurements processRequest, Verifier.ValidPin pin := by
  have hregister : ∀ index ∈ [0, 1, 2], ∀ n : Int,
      Verifier.ValidPin (n, (processRequest index).data) := by
    intro index hindex n
    obtain ⟨_, -, h⟩ := bind_ok h
    have hcheck := ensure_ok (forM_ok_iff.mp h index hindex)
    cases hanswer : processRequest index with
    | describePcr lock data =>
        rw [hanswer] at hcheck
        simp only [Bool.and_eq_true, beq_iff_eq] at hcheck
        exact ⟨hcheck.1.2, hcheck.2⟩
    | _ =>
        rw [hanswer] at hcheck
        cases hcheck
  refine ⟨rfl, ?_⟩
  intro pin hpin
  simp only [Nsm.measurements, List.mem_cons, List.not_mem_nil,
    or_false] at hpin
  rcases hpin with rfl | rfl | rfl
  · exact hregister 0 (by simp) 0
  · exact hregister 1 (by simp) 1
  · exact hregister 2 (by simp) 2

/-! ## The record of the setup on regtest -/

theorem Regtest.validateSettings_record :
    Initialize.validateSettings Regtest.record = .ok () := by
  decide +kernel

theorem Regtest.accepts_record :
    SetupAccepts Regtest.record Symbolic.settings := by
  constructor <;> decide +kernel

end SapioTee
