import SapioTee.Lib.JsonRoundtrip
import SapioTee.Model.Symbolic
import SapioTee.Model.Verifier
import SapioTee.Proofs.Base58
import SapioTee.Proofs.Setup

/-!
# One setup record, three readers

The enclave reads the record into `Settings` and writes them back inside its
identity; the initializer and the verifier compare what was written with the
record they hold. Only one thing is lost on the way in, the case of the
block hash, and the initializer refuses every record that has any. What is
written is otherwise the record itself, with its members in another order.

The key is the other half: its text decodes to the 78 bytes it came from,
and their first four name the kind of network the master key was made for.
-/

namespace SapioTee

open Lib App

/-- What the scripts and the crates around the identity are relied on for. -/
structure WireLaws {T : Types} (E : Enclave T) (V : VerifierCrates T) :
    Prop where
  /-- serde writes the value on one line. -/
  toJson_text : ∀ {identity : Identity T} {text : String},
    E.toJson identity = .ok text →
      text = String.ofList
        (JsonText.render (JsonText.compact V.ryu) 0 (identity.json V))
  newMaster_kind : ∀ {network : Network} {seed : Bytes} {root : T.Xpriv},
    E.keys.newMaster network seed = .ok root → V.xpriv root = network.kind
  publicRoot_kind : ∀ {root : T.Xpriv} {registry : List WasmEvaluator}
      {oracle : E.oracles.ProgramOracle},
    E.oracles.oracleNew root registry = .ok oracle →
      (V.xpub (E.oracles.oraclePublicRoot oracle)).network = V.xpriv root
  /-- A key is a point. -/
  publicKey_point : ∀ xpub : T.Xpub,
    V.fromEncodedPoint (V.xpub xpub).publicKey.toList = .ok ()
  /-- The ids of the two inline interpreters. -/
  wasmId_eq : hexEncode E.oracles.wasmId.toList
    = String.ofList (Verifier.zeros 64)
  wasmV2Id_eq : hexEncode E.oracles.wasmV2Id.toList
    = String.ofList (Verifier.zeros 63 ++ ['2'])
  /-- No module's id is one of them. -/
  unreserved : ∀ entry ∈ registered E.oracles,
    E.oracles.forWasmVersion entry.2.2 entry.2.1 ≠ E.oracles.wasmId ∧
      E.oracles.forWasmVersion entry.2.2 entry.2.1 ≠ E.oracles.wasmV2Id

/-! ## Settings -/

theorem blockHashToString_fromStr {s : String} {hash : Hash}
    (h : blockHashFromStr s = some hash) (hlow : lowercaseHex64 s = true) :
    blockHashToString hash = s := by
  rw [lowercaseHex64, Bool.and_eq_true] at hlow
  have hchars : ∀ c ∈ s.toList, c ∈ hexAlphabet := by
    intro c hc
    exact List.contains_iff_mem.mp (List.all_eq_true.mp hlow.2 c hc)
  rw [blockHashFromStr] at h
  split at h
  · cases h
  · next bytes hbytes =>
      split at h
      · injection h with h
        rw [← h, blockHashToString]
        show String.ofList (hexChars bytes.reverse.reverse) = s
        rw [List.reverse_reverse, hexChars_unhexChars hbytes hchars,
          String.ofList_toList]
      · cases h

theorem Network.name_fromName {s : String} {network : Network}
    (h : Network.fromName s = some network) : network.name = s := by
  have hname := List.find?_some h
  exact eq_of_beq hname

theorem settingsOf_eq {keyId blockhash network : Json} {settings : Settings}
    (h : settingsOf keyId blockhash network = some settings) :
    keyId = .str settings.keyId ∧
      (∃ s, blockhash = .str s ∧
        blockHashFromStr s = some settings.blockhash) ∧
      Network.deserialize network = some settings.network := by
  simp only [settingsOf, Option.bind_eq_bind, Option.bind_eq_some_iff,
    Option.pure_def, Option.some.injEq] at h
  obtain ⟨k, hk, s, hs, hash, hhash, n, hn, rfl⟩ := h
  exact ⟨Json.eq_str hk, ⟨s, Json.eq_str hs, hhash⟩, hn⟩

/-- The members of a record the initializer takes and the enclave reads: in
whatever order, they are the ones the enclave writes. -/
structure Agreed (members : Members) (settings : Settings) : Prop where
  nodup : (members.map Prod.fst).Nodup
  fields : Json.hasExactly settingsFields members = true
  nonempty : (members.all fun m => nonemptyStr m.2) = true
  keyId : Json.get members "key_id" = some (.str settings.keyId)
  blockhash : Json.get members "blockhash"
    = some (.str (blockHashToString settings.blockhash))
  network : Json.get members "network" = some (.str settings.network.name)

/-- What the initializer has looked at when it takes a record. -/
theorem validateSettings_ok {members : Members}
    (h : Initialize.validateSettings (.obj members) = .ok ()) :
    (members.all fun m => nonemptyStr m.2) = true ∧
      ∀ s, Json.get members "blockhash" = some (.str s) →
        lowercaseHex64 s = true := by
  rw [Initialize.validateSettings] at h
  obtain ⟨taken, hdict, h⟩ := bind_ok h
  obtain ⟨hmembers, _⟩ := dict_ok hdict
  injection hmembers with hmembers
  subst hmembers
  obtain ⟨_, hall, h⟩ := bind_ok h
  obtain ⟨value, hitem, h⟩ := bind_ok h
  refine ⟨require_ok hall, ?_⟩
  intro s hs
  rw [item, hs] at hitem
  injection hitem with hitem
  rw [← hitem] at h
  have hhex := require_ok h
  rw [Bool.and_eq_true] at hhex
  exact hhex.1

/-- A member of a record without an empty value is a nonempty string. -/
theorem exists_str {members : Members} {name : String} {value : Json}
    (hall : (members.all fun m => nonemptyStr m.2) = true)
    (h : Json.get members name = some value) : ∃ s, value = .str s := by
  have hstr := List.all_eq_true.mp hall _ (Json.mem_of_get h)
  cases value with
  | str s => exact ⟨s, rfl⟩
  | _ => cases hstr

theorem exists_agreed {record : Json} {settings : Settings}
    (hinit : Initialize.validateSettings record = .ok ())
    (hread : Settings.deserialize record = some settings) :
    ∃ members, record = .obj members ∧ Agreed members settings := by
  cases record with
  | obj members =>
      rw [Settings.deserialize] at hread
      split at hread
      · next hfields =>
          simp only [Option.bind_eq_bind, Option.bind_eq_some_iff] at hread
          obtain ⟨k, hk, b, hb, n, hn, hread⟩ := hread
          obtain ⟨rfl, ⟨s, rfl, hhash⟩, hnetwork⟩ := settingsOf_eq hread
          obtain ⟨hall, hlow⟩ := validateSettings_ok hinit
          obtain ⟨name, rfl⟩ := exists_str hall hn
          refine ⟨members, rfl, hfields.1, hfields.2, hall, hk, ?_, ?_⟩
          · rw [hb, blockHashToString_fromStr hhash (hlow s hb)]
          · rw [hn, Network.name_fromName hnetwork]
      · cases hread
  | _ => cases hinit

namespace Agreed

variable {members : Members} {settings : Settings}

theorem length_eq (h : Agreed members settings) : members.length = 3 := by
  have hperm : (members.map Prod.fst).Perm settingsFields := by
    apply (List.perm_ext_iff_of_nodup h.nodup (by decide)).mpr
    exact Json.hasExactly_iff.mp h.fields
  have hlen := hperm.length_eq
  rw [List.length_map] at hlen
  exact hlen

/-- The settings in the identity are the record. -/
theorem eq_record (h : Agreed members settings) :
    Json.eq settings.json (.obj members) = true := by
  have hsame : ∀ m ∈ [("key_id", Json.str settings.keyId),
      ("blockhash", .str (blockHashToString settings.blockhash)),
      ("network", .str settings.network.name)],
      Json.get members m.1 = some m.2 := by
    intro m hm
    simp only [List.mem_cons, List.not_mem_nil, or_false] at hm
    rcases hm with rfl | rfl | rfl
    · exact h.keyId
    · exact h.blockhash
    · exact h.network
  rw [Settings.json, Json.eq, h.length_eq,
    Json.eqMembers_of _ _ hsame rfl rfl]
  rfl

end Agreed

/-! ## The key -/

theorem length_xpubEncode (xpub : XpubFields) : xpub.encode.length = 78 := by
  have hversion : xpub.network.xpubVersion.length = 4 := by
    cases xpub.network <;> rfl
  simp only [XpubFields.encode, List.length_append, hversion,
    Vector.length_toList, List.length_singleton]

theorem take_xpubEncode (xpub : XpubFields) :
    xpub.encode.take 4 = xpub.network.xpubVersion := by
  cases hnetwork : xpub.network <;> simp [XpubFields.encode, hnetwork,
    NetworkKind.xpubVersion]

theorem drop_xpubEncode (xpub : XpubFields) :
    xpub.encode.drop 45 = xpub.publicKey.toList := by
  have hversion : xpub.network.xpubVersion.length = 4 := by
    cases xpub.network <;> rfl
  have hfront : (xpub.network.xpubVersion ++ [xpub.depth] ++
      xpub.parentFingerprint.toList ++ xpub.childNumber.toList ++
      xpub.chainCode.toList).length = 45 := by
    simp only [List.length_append, hversion, Vector.length_toList,
      List.length_singleton]
  rw [XpubFields.encode, ← hfront, List.drop_left]

theorem xpubVersion_name (network : Network) :
    Verifier.xpubVersion network.name = .ok network.kind.xpubVersion := by
  cases network <;> rfl

theorem validateXpub_ok {T : Types} (V : VerifierCrates T) {xpub : XpubFields}
    {network : Network} (hkind : xpub.network = network.kind)
    (hpoint : V.fromEncodedPoint xpub.publicKey.toList = .ok ()) :
    Verifier.validateXpub V (.str (base58Check V.sha256 xpub.encode))
      network.name = .ok () := by
  have hlen := length_xpubEncode xpub
  have hkey : (xpub.encode.take 78).drop 45 = xpub.publicKey.toList := by
    rw [← hlen, List.take_length, drop_xpubEncode]
  rw [Verifier.validateXpub, base58checkDecode_check V hlen, ok_bind,
    xpubVersion_name, ok_bind, take_xpubEncode, hkind, beq_self_eq_true,
    require_true, ok_bind, hkey, hpoint]
  rfl

/-! ## The profile -/

theorem lowercaseHex64_hash (hash : Hash) :
    lowercaseHex64 (hexEncode hash.toList) = true := by
  have hlen : (hexEncode hash.toList).length = 64 := by
    show (String.ofList (hexChars hash.toList)).length = 64
    rw [String.length_ofList, length_hexChars, Vector.length_toList]
  rw [lowercaseHex64, hlen, Bool.and_eq_true, List.all_eq_true]
  refine ⟨rfl, ?_⟩
  intro c hc
  rw [hexEncode, String.toList_ofList] at hc
  exact List.contains_iff_mem.mpr (mem_hexChars hc)

theorem validateEvaluator_ok {fields seen : List String} {members : Members}
    {hash : Hash} {version : Int}
    (hfields : Json.hasExactly fields members = true)
    (hid : Json.get members "id" = some (.str (hexEncode hash.toList)))
    (hnumber : Json.get members "wasm_version" = some (.int version))
    (hversion : version = 1 ∨ version = 2)
    (hseen : hexEncode hash.toList ∉ seen) :
    Verifier.validateEvaluator fields seen (.obj members)
      = .ok (members, hexEncode hash.toList, version) := by
  have hnew : seen.contains (hexEncode hash.toList) = false := by
    rw [List.contains_eq_mem]
    exact decide_eq_false hseen
  have hknown : (version == 1 || version == 2) = true := by
    rcases hversion with rfl | rfl <;> rfl
  rw [Verifier.validateEvaluator, dict_obj hfields, ok_bind, item_of_get hid,
    ok_bind]
  simp only [Json.str?, present, ok_bind, lowercaseHex64_hash, require_true,
    hnew, Bool.not_false, item_of_get hnumber, Json.int?, hknown]
  rfl

theorem validateInline_ok {evaluator : InlineEvaluator} {seen : List String}
    {version : Int} (hnumber : (evaluator.wasmVersion.toNat : Int) = version)
    (hversion : version = 1 ∨ version = 2)
    (hseen : hexEncode evaluator.id.toList ∉ seen)
    (hreserved : Verifier.reserved.lookup (hexEncode evaluator.id.toList)
      = some version) :
    Verifier.validateInline seen evaluator.json
      = .ok (hexEncode evaluator.id.toList :: seen) := by
  have hfields : Json.hasExactly Verifier.inlineFields
      [("id", .str (hexEncode evaluator.id.toList)),
        ("wasm_version", .int version)] = true := rfl
  rw [Verifier.validateInline, InlineEvaluator.json, hnumber,
    validateEvaluator_ok hfields rfl rfl hversion hseen, ok_bind]
  simp only [hreserved, beq_self_eq_true, require_true, ok_bind]
  rfl

theorem validateRegistered_ok {evaluator : RegisteredEvaluator}
    {seen : List String} {version : Int}
    (hnumber : (evaluator.wasmVersion.toNat : Int) = version)
    (hversion : version = 1 ∨ version = 2)
    (hseen : hexEncode evaluator.id.toList ∉ seen)
    (hreserved : Verifier.reserved.lookup (hexEncode evaluator.id.toList)
      = none)
    (hname : nonblankStr (.str evaluator.name) = true) :
    Verifier.validateRegistered seen evaluator.json
      = .ok (hexEncode evaluator.id.toList :: seen) := by
  have hfields : Json.hasExactly Verifier.registeredFields
      [("name", .str evaluator.name),
        ("id", .str (hexEncode evaluator.id.toList)),
        ("wasm_version", .int version)] = true := rfl
  rw [Verifier.validateRegistered, RegisteredEvaluator.json, hnumber,
    validateEvaluator_ok hfields rfl rfl hversion hseen, ok_bind]
  simp only [hreserved, Option.isNone_none, require_true, ok_bind]
  rw [item_of_get rfl, ok_bind, hname]
  rfl

section

variable {T : Types} {E : Enclave T} {V : VerifierCrates T}

theorem reserved_eq (laws : WireLaws E V) :
    Verifier.reserved = [(hexEncode E.oracles.wasmId.toList, 1),
      (hexEncode E.oracles.wasmV2Id.toList, 2)] := by
  rw [laws.wasmId_eq, laws.wasmV2Id_eq]
  rfl

theorem wasmV2Id_ne (laws : WireLaws E V) :
    (hexEncode E.oracles.wasmV2Id.toList == hexEncode E.oracles.wasmId.toList)
      = false := by
  rw [laws.wasmId_eq, laws.wasmV2Id_eq]
  decide

theorem foldlM_inline (laws : WireLaws E V) :
    ((programProfile E.oracles).inlineEvaluators.map
        InlineEvaluator.json).foldlM Verifier.validateInline []
      = .ok [hexEncode E.oracles.wasmV2Id.toList,
        hexEncode E.oracles.wasmId.toList] := by
  show [InlineEvaluator.json ⟨E.oracles.wasmId, 1⟩,
    InlineEvaluator.json ⟨E.oracles.wasmV2Id, 2⟩].foldlM
      Verifier.validateInline [] = _
  have hv1 : Verifier.reserved.lookup (hexEncode E.oracles.wasmId.toList)
      = some 1 := by
    rw [reserved_eq laws, List.lookup_cons_self]
  have hv2 : Verifier.reserved.lookup (hexEncode E.oracles.wasmV2Id.toList)
      = some 2 := by
    rw [reserved_eq laws, List.lookup_cons, wasmV2Id_ne laws]
    exact List.lookup_cons_self
  have hnew : hexEncode E.oracles.wasmV2Id.toList
      ∉ [hexEncode E.oracles.wasmId.toList] := by
    intro hmem
    have hne := wasmV2Id_ne laws
    rw [List.mem_singleton.mp hmem, beq_self_eq_true] at hne
    cases hne
  have hstep1 := @validateInline_ok ⟨E.oracles.wasmId, 1⟩ [] 1 rfl (.inl rfl)
    List.not_mem_nil hv1
  have hstep2 := @validateInline_ok ⟨E.oracles.wasmV2Id, 2⟩ _ 2 rfl (.inr rfl)
    hnew hv2
  rw [List.foldlM_cons, hstep1, ok_bind, List.foldlM_cons, hstep2, ok_bind]
  rfl

theorem foldlM_registered (laws : WireLaws E V) :
    ((programProfile E.oracles).registeredEvaluators.map
        RegisteredEvaluator.json).foldlM Verifier.validateRegistered
        [hexEncode E.oracles.wasmV2Id.toList,
          hexEncode E.oracles.wasmId.toList]
      = .ok [hexEncode (E.oracles.forWasmVersion E.oracles.payAtLeastWasm
          .v1).toList, hexEncode E.oracles.wasmV2Id.toList,
        hexEncode E.oracles.wasmId.toList] := by
  obtain ⟨hnot1, hnot2⟩ := laws.unreserved _ List.mem_cons_self
  have hne1 : hexEncode (E.oracles.forWasmVersion E.oracles.payAtLeastWasm
      .v1).toList ≠ hexEncode E.oracles.wasmId.toList :=
    fun h => hnot1 (Vector.toList_inj.mp (hexEncode_inj h))
  have hne2 : hexEncode (E.oracles.forWasmVersion E.oracles.payAtLeastWasm
      .v1).toList ≠ hexEncode E.oracles.wasmV2Id.toList :=
    fun h => hnot2 (Vector.toList_inj.mp (hexEncode_inj h))
  show [RegisteredEvaluator.json ⟨"pay-at-least/v1",
    E.oracles.forWasmVersion E.oracles.payAtLeastWasm .v1, 1⟩].foldlM
      Verifier.validateRegistered _ = _
  have hnew : hexEncode (E.oracles.forWasmVersion E.oracles.payAtLeastWasm
      .v1).toList ∉ [hexEncode E.oracles.wasmV2Id.toList,
        hexEncode E.oracles.wasmId.toList] := by
    intro hmem
    rcases List.mem_cons.mp hmem with h | h
    · exact hne2 h
    · exact hne1 (List.mem_singleton.mp h)
  have hfree : Verifier.reserved.lookup (hexEncode (E.oracles.forWasmVersion
      E.oracles.payAtLeastWasm .v1).toList) = none := by
    rw [reserved_eq laws, List.lookup_cons, beq_false_of_ne hne1]
    show List.lookup _ [_] = none
    rw [List.lookup_cons, beq_false_of_ne hne2]
    rfl
  have hname : nonblankStr (.str "pay-at-least/v1") = true := by decide
  have hstep := @validateRegistered_ok ⟨"pay-at-least/v1",
    E.oracles.forWasmVersion E.oracles.payAtLeastWasm .v1, 1⟩ _ 1 rfl
    (.inl rfl) hnew hfree hname
  rw [List.foldlM_cons, hstep, ok_bind]
  rfl

/-- The profile the enclave advertises is one the verifier accepts. -/
theorem validateProgramProfile_json (laws : WireLaws E V) :
    Verifier.validateProgramProfile (programProfile E.oracles).json
      = .ok () := by
  have hark : Verifier.validateArkSigning
      (programProfile E.oracles).arkSigning.json = .ok () := rfl
  have hprotocol : isStr (.str (programProfile E.oracles).protocol)
      "SignProgramV1" = true := rfl
  rw [Verifier.validateProgramProfile, ProgramProfile.json, dict_obj rfl,
    ok_bind, item_of_get rfl, ok_bind, hprotocol, require_true, ok_bind,
    item_of_get rfl, ok_bind, hark, ok_bind, item_of_get rfl, ok_bind]
  simp only [Verifier.registryEntries, ok_bind, foldlM_inline laws]
  rw [item_of_get rfl, ok_bind]
  simp only [ok_bind, foldlM_registered laws]
  rfl

/-! ## The identity -/

theorem isStr_self (s : String) : isStr (.str s) s = true :=
  beq_self_eq_true (some s)

theorem nonblankStr_base58 {bs : Bytes} (h : bs ≠ []) :
    nonblankStr (.str (String.ofList (base58Chars bs))) = true := by
  obtain ⟨c, hc⟩ := List.exists_mem_of_ne_nil _ (base58Chars_ne_nil h)
  have hall : (base58Alphabet.all fun c => !isSpace c) = true := by decide
  show (String.ofList (base58Chars bs)).toList.any _ = true
  rw [String.toList_ofList]
  exact List.any_eq_true.mpr
    ⟨c, hc, List.all_eq_true.mp hall c (mem_base58Chars hc)⟩

/-- The members of a Nitro identity. -/
def identityMembers (xpub settings signing : Json) : Members :=
  [("protocol", .str "sapio-tee/program-oracle/1"), ("mode", .str "nitro"),
    ("xpub", xpub), ("settings", settings), ("signing", signing)]

/-- The text of an oracle's root. -/
def rootText (V : VerifierCrates T) (oracle : E.oracles.ProgramOracle) :
    String :=
  base58Check V.sha256 (V.xpub (E.oracles.oraclePublicRoot oracle)).encode

theorem identityOf_json (V : VerifierCrates T) (hnsm : E.nsm = true)
    (oracle : E.oracles.ProgramOracle) (settings : Settings) :
    (identityOf E oracle (some settings)).json V
      = .obj (identityMembers (.str (rootText V oracle)) settings.json
        (programProfile E.oracles).json) := by
  have hmode : (identityOf E oracle (some settings)).mode = "nitro" := by
    rw [identityOf, hnsm]
    rfl
  rw [Identity.json, hmode]
  rfl

theorem nonblankStr_rootText (V : VerifierCrates T)
    (oracle : E.oracles.ProgramOracle) :
    nonblankStr (.str (rootText V oracle)) = true := by
  apply nonblankStr_base58
  intro hnil
  have hlen := congrArg List.length (List.append_eq_nil_iff.mp hnil).1
  rw [length_xpubEncode] at hlen
  cases hlen

theorem eq_profile (O : OracleCrates T) :
    Json.eq (programProfile O).json (programProfile O).json = true :=
  Json.eq_self _ rfl rfl

theorem validateIdentity_members {text : String} {record : Json}
    {xpub settings : Json} {signing : Members}
    (hload : Initialize.jsonValue V text
      = .ok (.obj (identityMembers xpub settings (.obj signing))))
    (hsettings : Json.eq settings record = true)
    (hxpub : nonblankStr xpub = true) :
    Initialize.validateIdentity V text record
      = .ok (.obj (identityMembers xpub settings (.obj signing))) := by
  have hprotocol : item (identityMembers xpub settings (.obj signing))
      "protocol" = .ok (.str "sapio-tee/program-oracle/1") := rfl
  have hmode : item (identityMembers xpub settings (.obj signing)) "mode"
      = .ok (.str "nitro") := rfl
  have hpublished : item (identityMembers xpub settings (.obj signing))
      "settings" = .ok settings := rfl
  have hkey : item (identityMembers xpub settings (.obj signing)) "xpub"
      = .ok xpub := rfl
  have hsigning : item (identityMembers xpub settings (.obj signing))
      "signing" = .ok (.obj signing) := rfl
  rw [Initialize.validateIdentity, hload, ok_bind, dict_obj rfl, ok_bind,
    hprotocol, ok_bind, isStr_self, require_true, ok_bind, hmode, ok_bind,
    isStr_self, require_true, ok_bind, hpublished, ok_bind, hsettings,
    require_true, ok_bind, hkey, ok_bind, hxpub, require_true, ok_bind,
    hsigning, ok_bind]
  rfl

theorem verifierSettings_ok {members : Members} {settings : Settings}
    (hagreed : Agreed members settings) :
    Verifier.validateSettings (.obj members) = .ok members := by
  have hknown : (Verifier.xpubVersions.lookup settings.network.name).isSome
      = true := by
    cases settings.network <;> rfl
  rw [Verifier.validateSettings, dict_obj hagreed.fields, ok_bind,
    hagreed.nonempty, require_true, ok_bind, item_of_get hagreed.network,
    ok_bind]
  show (require (Verifier.xpubVersions.lookup settings.network.name).isSome _
    >>= fun _ => _) = _
  rw [hknown]
  rfl

theorem verifyIdentity_members {text : String} {expected : Members}
    {xpub settings profile : Json} {network : Network}
    (hload : Verifier.jsonValue V text
      = .ok (.obj (identityMembers xpub settings profile)))
    (hexpected : Verifier.validateSettings (.obj expected) = .ok expected)
    (hnetwork : item expected "network" = .ok (.str network.name))
    (hprofile : Verifier.validateProgramProfile profile = .ok ())
    (hsame : Json.eq profile profile = true)
    (hsettings : Json.eq settings (.obj expected) = true)
    (hxpub : Verifier.validateXpub V xpub network.name = .ok ()) :
    Verifier.verifyIdentity V text (.obj expected) profile
      = .ok (.obj (identityMembers xpub settings profile)) := by
  have hprotocol : item (identityMembers xpub settings profile) "protocol"
      = .ok (.str "sapio-tee/program-oracle/1") := rfl
  have hmode : item (identityMembers xpub settings profile) "mode"
      = .ok (.str "nitro") := rfl
  have hsigning : item (identityMembers xpub settings profile) "signing"
      = .ok profile := rfl
  have hpublished : item (identityMembers xpub settings profile) "settings"
      = .ok settings := rfl
  have hkey : item (identityMembers xpub settings profile) "xpub"
      = .ok xpub := rfl
  rw [Verifier.verifyIdentity, hprofile, ok_bind, hexpected, ok_bind, hload,
    ok_bind, dict_obj rfl, ok_bind, hprotocol, ok_bind, hmode, ok_bind,
    isStr_self, isStr_self, Bool.true_and, require_true, ok_bind, hsigning,
    ok_bind, hprofile, ok_bind, hsame, require_true, ok_bind, hpublished,
    ok_bind, hsettings, require_true, ok_bind, hkey, ok_bind, hnetwork,
    ok_bind]
  simp only [Json.str?, Option.getD_some, hxpub, ok_bind]
  rfl

/-- The root the derivation returns is of the kind of its network. -/
theorem deriveFinish_kind (laws : WireLaws E V) {settings : Settings}
    {answer : Except String SharedSecretOutput} {root : T.Xpriv}
    (h : deriveFinish E.keys settings answer = .ok root) :
    V.xpriv root = settings.network.kind := by
  rw [deriveFinish] at h
  obtain ⟨output, _, h⟩ := bind_ok h
  obtain ⟨secret, _, h⟩ := bind_ok h
  obtain ⟨_, _, h⟩ := bind_ok h
  obtain ⟨_, _, h⟩ := bind_ok h
  obtain ⟨_, _, h⟩ := bind_ok h
  rw [rootFromSecret] at h
  obtain ⟨_, _, h⟩ := bind_ok h
  obtain ⟨arnLength, _, h⟩ := bind_ok h
  obtain ⟨seed, _, h⟩ := bind_ok h
  exact laws.newMaster_kind (relabel_ok h)

theorem programOracle_kind (laws : WireLaws E V) {root : T.Xpriv}
    {oracle : E.oracles.ProgramOracle}
    (h : programOracle E.oracles root = .ok oracle) :
    (V.xpub (E.oracles.oraclePublicRoot oracle)).network = V.xpriv root := by
  rw [programOracle] at h
  obtain ⟨registry, _, h⟩ := bind_ok h
  exact laws.publicRoot_kind (outside_ok h)

/-- Python reads the value whose text it is given. -/
theorem loads_text (V : VerifierCrates T) {value : Json} {text : String}
    (htext : text = String.ofList
      (JsonText.render (JsonText.compact V.ryu) 0 value))
    (h : JsonText.plain value = true) : V.loads text = some value := by
  have hread := JsonText.loads_render V.float
    (JsonText.compact_legible V.ryu) h (List.forall_mem_nil _)
  rw [List.append_nil] at hread
  rw [VerifierCrates.loads, htext, String.toList_ofList, hread]

theorem plain_profile (O : OracleCrates T) :
    JsonText.plain (programProfile O).json = true := by
  have hsmall : ∀ n : Nat, n < 10 ^ 4 → JsonText.plain (.int n) = true :=
    fun n hn => JsonText.plain_int hn
  simp only [ProgramProfile.json, programProfile, registered,
    InlineEvaluator.json, RegisteredEvaluator.json, ArkSigningProfile.json,
    List.map_cons, List.map_nil, JsonText.plain_obj, JsonText.plain_arr,
    JsonText.plain_str, JsonText.plain_bool, JsonText.plainMembers_cons,
    JsonText.plainMembers_nil, JsonText.plainItems_cons,
    JsonText.plainItems_nil, Bool.and_true, Bool.true_and, Bool.and_eq_true]
  refine ⟨⟨hsmall _ ?_, hsmall _ ?_⟩, hsmall _ ?_, hsmall _ ?_, hsmall _ ?_,
    hsmall _ ?_, hsmall _ ?_, hsmall _ ?_⟩ <;> decide

/-- An identity holds texts, flags and small integers. -/
theorem plain_identity (V : VerifierCrates T)
    (oracle : E.oracles.ProgramOracle) (settings : Settings) :
    JsonText.plain ((identityOf E oracle (some settings)).json V) = true := by
  have hprofile := plain_profile E.oracles
  simp [Identity.json, identityOf, Settings.json, hprofile]

end

/-- Every setup record that the initializer and the enclave accept, for every
root its derivation may return: the identity the enclave publishes passes the
initializer's and the verifier's checks for that record. -/
theorem setup_record_agrees {T : Types} (E : Enclave T) (V : VerifierCrates T)
    (laws : WireLaws E V) (hnsm : E.nsm = true) (record : Json)
    (hinit : Initialize.validateSettings record = .ok ())
    (settings : Settings) (haccepts : SetupAccepts record settings)
    (answer : Except String SharedSecretOutput) (root : T.Xpriv)
    (hroot : deriveFinish E.keys settings answer = .ok root)
    (locals : Install E) (hinstall : install E root settings = .ok locals) :
    Initialize.validateIdentity V locals.identity record
        = .ok ((identityOf E locals.oracle (some settings)).json V) ∧
      Verifier.verifyIdentity V locals.identity record
          (programProfile E.oracles).json
        = .ok ((identityOf E locals.oracle (some settings)).json V) := by
  obtain ⟨rfl, rfl⟩ := install_ok hinstall
  obtain ⟨members, rfl, hagreed⟩ := exists_agreed hinit haccepts.1
  have hread := loads_text V (laws.toJson_text locals.identity_eq)
    (plain_identity V locals.oracle _)
  rw [identityOf_json V hnsm] at hread ⊢
  have hkind := (programOracle_kind laws locals.oracle_eq).trans
    (deriveFinish_kind laws hroot)
  constructor
  · apply validateIdentity_members _ hagreed.eq_record
      (nonblankStr_rootText V locals.oracle)
    rw [Initialize.jsonValue, hread]
    rfl
  · apply verifyIdentity_members _ (verifierSettings_ok hagreed)
      (item_of_get hagreed.network) (validateProgramProfile_json laws)
      (eq_profile E.oracles) hagreed.eq_record
      (validateXpub_ok V hkind (laws.publicKey_point _))
    rw [Verifier.jsonValue, hread]
    rfl

/-! ## A setup on regtest -/

namespace Regtest

/-- The bytes of a hexadecimal literal. -/
def bytes (s : String) : Bytes := (unhexChars s.toList).getD []

/-- The shared secret `kmsOutput` carries, expanded for `Symbolic.settings`. -/
def seed : Bytes := bytes <|
  "0cb073575fdac5f6d4a7128b8ac8aac3a2216f7ba5355f1af7400fad6c29c120" ++
    "dea5eb8067bc5c01eb5c5f01805df9aa5e60091daab64d6155b6ca5031572fa1"

def chainCode : Vector UInt8 32 :=
  ⟨(bytes "eae739b4f0d58621e0efee5f64ab15487cbec17605cd8d9dce140bd02aae95fb"
    ).toArray, by decide⟩

def publicKey : Vector UInt8 33 :=
  ⟨(bytes "038a7b1cb4f348c1c96956be36543a3478622143f0143b5ee45c7a1959ed979ed2"
    ).toArray, by decide⟩

/-- The master key of a seed has depth zero and no parent. -/
def xpub (kind : NetworkKind) : XpubFields where
  network := kind
  depth := 0
  parentFingerprint := Vector.replicate 4 0
  childNumber := Vector.replicate 4 0
  chainCode := chainCode
  publicKey := publicKey

def digest : Hash :=
  ⟨(bytes "752412affa108e85e2b25a0edbbfc5cd86b2d80d335236af571a05a2409efac1"
    ).toArray, by decide⟩

def digestTwice : Hash :=
  ⟨(bytes "d04aff1e5b4b9f0b22ecaa1528808cff547a8836686076a03410aee540fa4141"
    ).toArray, by decide⟩

/-- SHA-256 on the payload of the root and on its digest. -/
def sha256 (message : Bytes) : Hash :=
  if message = (xpub .test).encode then digest
  else if message = digest.toList then digestTwice
  else allZeros

def kind (root : symbolicTypes.Xpriv) : NetworkKind :=
  if root = [hashOf (networkTag .bitcoin)] then .main else .test

def wasmV2Id : Hash := ⟨⟨List.replicate 31 0 ++ [2]⟩, rfl⟩

def payAtLeastId : Hash :=
  ⟨(bytes "c99794a01b53f5d41775d7f01e6d13afa072ab113540109267846af40d159111"
    ).toArray, by decide⟩

def oracles : OracleCrates symbolicTypes :=
  { symbolicOracles with
    wasmId := allZeros
    wasmV2Id := wasmV2Id
    forWasmVersion := fun _ _ => payAtLeastId }

def root : symbolicTypes.Xpriv := [hashOf (networkTag .regtest)]

def identity : Identity symbolicTypes where
  protocol := identityProtocol
  mode := "nitro"
  xpub := root
  settings := some Symbolic.settings
  signing := programProfile oracles

/-- A decoder that knows one point. -/
def pointOnly (known bytes : Bytes) : Except String Unit :=
  if bytes = known then .ok () else .error "not the root's key"

def verifier : VerifierCrates symbolicTypes where
  xpriv := kind
  xpub := fun root => xpub (kind root)
  sha256 := sha256
  float := fun _ => .float 0
  ryu := fun _ => "0.0".toList
  fromEncodedPoint := pointOnly publicKey.toList

/-- `serde_json::to_string`. -/
def printed (value : Json) : String :=
  String.ofList (JsonText.render (JsonText.compact verifier.ryu) 0 value)

/-- The identity as it is published. -/
def text : String := printed (identity.json verifier)

def enclave : Enclave symbolicTypes where
  crates := symbolicCrates
  keys := { symbolicKeys with hkdfExpand := fun _ _ _ _ => .ok seed }
  oracles := oracles
  toJson := fun identity => .ok (printed (identity.json verifier))
  nsm := true

/-- The root's key as a wallet shows it. -/
example : base58Check sha256 (xpub .test).encode =
    "tpubD6NzVbkrYhZ4YgGPZgMX7EUbo2KG4chZbCo8Kysz8NsugRQa49NVz9JP2MKUeLoMB4QC" ++
      "kcsoYh1XvNW2ijwum7RxZHxnrQTuJyeL2MdE5gq" := by
  decide +kernel

theorem kind_master (network : Network) :
    kind [hashOf (networkTag network)] = network.kind := by
  cases network <;> decide +kernel

theorem pointOnly_self (known : Bytes) : pointOnly known known = .ok () :=
  if_pos rfl

theorem laws : WireLaws enclave verifier where
  toJson_text := by
    intro i s h
    exact (Except.ok.inj h).symm
  newMaster_kind := by
    intro network seed root h
    injection h with h
    rw [← h]
    exact kind_master network
  publicRoot_kind := by
    intro root registry oracle h
    injection h with h
    rw [← h]
    rfl
  publicKey_point := fun _ => pointOnly_self publicKey.toList
  wasmId_eq := by decide +kernel
  wasmV2Id_eq := by decide +kernel
  unreserved := by
    intro entry _
    have hids : payAtLeastId ≠ allZeros ∧ payAtLeastId ≠ wasmV2Id := by
      decide +kernel
    exact hids

/-- The record as an operator may have written it. -/
def record : Json :=
  .obj [("network", .str "regtest"),
    ("blockhash", .str
      "0000000000000000000000000000000000000000000000000000000000000001"),
    ("key_id", .str ("arn:aws:kms:us-east-1:123456789012:key/" ++
      "12345678-1234-1234-1234-123456789abc"))]

/-- The locals of `install` for that record. -/
def locals : Install enclave where
  settings := Symbolic.settings
  root := root
  oracle := (root, [⟨hashOf 9, .v1, []⟩])
  arkSigner := ⟨root, root, [⟨hashOf 9, .v1, []⟩]⟩
  identity := text
  oracle_eq := rfl
  arkSigner_eq := rfl
  identity_eq := rfl

theorem install_locals :
    install enclave root Symbolic.settings = .ok locals := by
  rw [install]
  rfl

end Regtest

/-- A record with its members in another order. -/
theorem setup_record_agrees_regtest :
    Initialize.validateSettings Regtest.record = .ok () ∧
      SetupAccepts Regtest.record Symbolic.settings ∧
      Initialize.validateIdentity Regtest.verifier Regtest.text Regtest.record
        = .ok ((identityOf Regtest.enclave Regtest.locals.oracle
            (some Symbolic.settings)).json Regtest.verifier) ∧
      Verifier.verifyIdentity Regtest.verifier Regtest.text Regtest.record
          (programProfile Regtest.oracles).json
        = .ok ((identityOf Regtest.enclave Regtest.locals.oracle
            (some Symbolic.settings)).json Regtest.verifier) := by
  have hinit : Initialize.validateSettings Regtest.record = .ok () := by
    decide +kernel
  have haccepts : SetupAccepts Regtest.record Symbolic.settings := by
    constructor <;> decide +kernel
  exact ⟨hinit, haccepts, setup_record_agrees Regtest.enclave Regtest.verifier
    Regtest.laws rfl Regtest.record hinit Symbolic.settings haccepts
    (.ok Symbolic.kmsOutput) Regtest.root rfl Regtest.locals
    Regtest.install_locals⟩

end SapioTee
