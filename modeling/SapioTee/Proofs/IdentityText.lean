import SapioTee.Proofs.KeyIdentity
import SapioTee.Proofs.Record

/-!
# The text of an identity fits into a response

The initializer reads no more than 64 KiB of a response. The record a process
publishes has one member whose length is not fixed by its type, the key ARN,
and `validate` bounds that; the bound below is generous, six characters for
each one that may be escaped and four bytes for each character.
-/

namespace SapioTee

open Lib App

theorem length_validKey {key : Bytes} (h : validKey key = true) :
    key.length = 36 := by
  rcases validKey_iff.mp h with ⟨id, rfl, hid⟩ |
    ⟨a, b, c, d, e, rfl, ha, hb, hc, hd, he⟩
  · rw [List.length_append, hid.1]
    rfl
  · simp only [List.length_append, List.length_cons, ha.1, hb.1, hc.1, hd.1,
      he.1]

/-- A key ARN is short. -/
theorem length_keyId {settings : Settings}
    (h : settings.validate = .ok ()) : settings.keyId.toList.length ≤ 80 := by
  rw [Settings.validate] at h
  obtain ⟨region, hregion, -⟩ := bind_ok h
  obtain ⟨account, key, hparts, hbytes⟩ := keyRegion_ok_iff.mp hregion
  have hlisted : ∀ r ∈ kmsRegions.map ascii, r.length ≤ 14 := by decide
  have hshort := hlisted region (List.contains_iff_mem.mp hparts.region)
  have haccount := hparts.account.1
  have hkey := length_validKey hparts.key
  have hlength := congrArg List.length hbytes
  rw [arnBytes_eq] at hlength
  simp only [List.length_append] at hlength
  have hchars := (length_utf8 settings.keyId).1
  have hlead : (ascii "arn:aws:kms:").length = 12 := by decide
  have hcolon : (ascii ":").length = 1 := by decide
  have hslash : (ascii ":key/").length = 5 := by decide
  omega

theorem length_hexEncode (bs : Bytes) :
    (hexEncode bs).toList.length = 2 * bs.length := by
  rw [hexEncode, String.toList_ofList]
  exact length_hexChars bs

theorem length_hash (hash : Hash) :
    (hexEncode hash.toList).toList.length = 64 := by
  rw [length_hexEncode, Vector.length_toList]

theorem length_blockHash (hash : Hash) :
    (blockHashToString hash).toList.length = 64 := by
  rw [blockHashToString, length_hexEncode, List.length_reverse,
    Vector.length_toList]

theorem length_networkName (network : Network) :
    network.name.toList.length ≤ 8 := by
  cases network <;> decide

section

variable {T : Types} {E : Enclave T} {V : VerifierCrates T}

theorem length_rootText (oracle : E.oracles.ProgramOracle) :
    (rootText V oracle).toList.length ≤ 300 := by
  rw [rootText, base58Check, String.toList_ofList]
  refine Nat.le_trans (length_base58Chars _) ?_
  rw [List.length_append, length_xpubEncode, checksum]
  have htake := List.length_take_le 4
    (V.sha256 (V.sha256 (V.xpub (E.oracles.oraclePublicRoot
      oracle)).encode).toList).toList
  omega

theorem weight_profile (O : OracleCrates T) (float : Rat → List Char) :
    JsonText.weight float (programProfile O).json ≤ 5000 := by
  simp only [ProgramProfile.json, programProfile, registered,
    InlineEvaluator.json, RegisteredEvaluator.json, ArkSigningProfile.json,
    List.map_cons, List.map_nil, JsonText.weight, JsonText.weightMembers,
    JsonText.weightItems, length_hash]
  decide

theorem weight_identity (oracle : E.oracles.ProgramOracle)
    {settings : Settings} (h : settings.validate = .ok ()) :
    JsonText.weight V.ryu ((identityOf E oracle (some settings)).json V)
      ≤ 16384 := by
  have hkey := length_keyId h
  have hhash := length_blockHash settings.blockhash
  have hnetwork := length_networkName settings.network
  have hroot := @length_rootText T E V oracle
  have hprofile := weight_profile E.oracles V.ryu
  have hprotocol : identityProtocol.toList.length = 26 := by decide
  have hmode : (if E.nsm = true then "nitro"
      else "local-dev").toList.length ≤ 9 := by
    split <;> decide
  have hnames : ∀ name ∈ identityFields ++ settingsFields,
      name.toList.length ≤ 9 := by decide
  simp only [identityFields, settingsFields, List.cons_append,
    List.nil_append, List.forall_mem_cons] at hnames
  rw [rootText] at hroot
  simp only [Identity.json, identityOf, Option.map_some, Option.getD_some,
    Settings.json, JsonText.weight, JsonText.weightMembers]
  omega

/-- What is published is short enough for the initializer to read. -/
theorem length_identity (laws : WireLaws E V) (l : Install E)
    (h : l.settings.validate = .ok ()) :
    (utf8 l.identity).length ≤ 65536 := by
  have hweight := @weight_identity T E V l.oracle _ h
  have htext := JsonText.length_render_le V.ryu 0
    ((identityOf E l.oracle (some l.settings)).json V)
  have hbytes := (length_utf8 l.identity).2
  rw [laws.toJson_text l.identity_eq, String.toList_ofList] at hbytes
  rw [laws.toJson_text l.identity_eq]
  omega

end

end SapioTee
