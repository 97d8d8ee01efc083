import SapioTee.Proofs.Attestation
import SapioTee.Proofs.Process

/-!
# What an accepted attestation stands for

`Nitro` is what the NSM documents of its quotes: for an enclave of the image
it signs that enclave's registers, its own clock and what the enclave asked
with, and for another image some register differs. `Unforged` and
`CollisionFree` say of one run that nobody forged a signature in it or found
two identities with one hash; they are about the messages of that run, not
about all there could be.

Then what a verifier accepts is what an enclave of the pinned image has
published, and that enclave was asked with the verifier's own nonce, within
the window of the verifier's clock. The enclave is a process with one signer,
so the accepted key is the root of every share the enclave releases, before
or after.
-/

namespace SapioTee.Host

open Lib Verifier

variable {T : Types} {E : App.Enclave T} {A : AttestationCrates}
  {V : VerifierCrates T}

/-! ## The enclaves -/

/-- An event of one enclave. -/
def enclaveEvent (i : Nat) : Event E → Option (Process.Event E)
  | .enclave j e => if j = i then some e else none
  | _ => none

theorem view_enclave (i : Nat) :
    Function.IsPartialInv (.enclave i) (enclaveEvent (E := E) i) := by
  intro x e
  cases e with
  | enclave j y =>
      rw [enclaveEvent]
      split
      · next heq => simp [heq, eq_comm]
      · next hne => simp [Ne.symm hne]
  | _ => simp [enclaveEvent]

theorem enclaveEvent_self (i : Nat) (e : Process.Event E) :
    enclaveEvent i (.enclave i e) = some e := if_pos rfl

theorem attestationRequest_ok {w : App.World E} {nonce : String}
    {asked : Bytes} {identity : String}
    (h : w.attestationRequest nonce = .ok (asked, identity)) :
    unhexChars nonce.toList = some asked ∧ w.identity = some identity := by
  unfold App.World.attestationRequest at h
  split at h
  · cases h
  · next bytes hbytes =>
      split at h
      · split at h
        · cases h
        · next text hidentity =>
            split at h
            · injection h with h
              injection h with hasked htext
              rw [hbytes, hidentity, hasked, htext]
              exact ⟨rfl, rfl⟩
            · cases h
      · cases h

theorem run_bind {S X Y : Type} (x : StateM S X) (f : X → StateM S Y) (s : S) :
    (x >>= f) s = f (x s).1 (x s).2 := rfl

theorem run_pure {S X : Type} (x : X) (s : S) :
    (pure x : StateM S X) s = (x, s) := rfl

theorem attestationIn_signed {v : App.World E} {i time : Nat}
    {nonce identity : String} {asked : Bytes} {quote : Quote}
    {sign : Bytes → Bytes → Option Quote}
    (hrequest : v.attestationRequest nonce = .ok (asked, identity))
    (hlength : 16 ≤ asked.length ∧ asked.length ≤ 64)
    (hsign : sign asked (E.keys.sha256 (utf8 identity)).toList = some quote) :
    v.attestationIn (processRequest (E := E) i time sign) nonce []
      = (.ok ⟨identity, String.ofList (base64Chars quote.document)⟩,
        [.quoted i asked (E.keys.sha256 (utf8 identity)).toList time
          quote]) := by
  rw [App.World.attestationIn, hrequest]
  simp only [Nsm.attestIn, if_pos hlength, run_bind, run_pure, processRequest,
    hsign, List.nil_append]

/-- The NSM is asked at most once, with the nonce that the handler was given
and the hash of the identity that is published. -/
theorem attestationIn_cases (v : App.World E) (i time : Nat) (nonce : String)
    (sign : Bytes → Bytes → Option Quote) :
    (∃ asked identity quote reply,
        unhexChars nonce.toList = some asked ∧ v.identity = some identity ∧
        sign asked (E.keys.sha256 (utf8 identity)).toList = some quote ∧
        v.attestationIn (processRequest (E := E) i time sign) nonce []
          = (reply, [.quoted i asked (E.keys.sha256 (utf8 identity)).toList
              time quote])) ∨
      ∃ reply, v.attestationIn (processRequest (E := E) i time sign) nonce []
        = (reply, []) := by
  cases hrequest : v.attestationRequest nonce with
  | error error =>
      refine .inr ⟨.error error, ?_⟩
      rw [App.World.attestationIn, hrequest]
      rfl
  | ok request =>
      obtain ⟨asked, identity⟩ := request
      by_cases hlength : 16 ≤ asked.length ∧ asked.length ≤ 64
      · cases hsign : sign asked (E.keys.sha256 (utf8 identity)).toList with
        | some quote =>
            obtain ⟨hnonce, hidentity⟩ := attestationRequest_ok hrequest
            exact .inl ⟨asked, identity, quote, _, hnonce, hidentity, hsign,
              attestationIn_signed hrequest hlength hsign⟩
        | none =>
            refine .inr ⟨.error (503, "NSM attestation failed"), ?_⟩
            rw [App.World.attestationIn, hrequest]
            simp only [Nsm.attestIn, if_pos hlength, run_bind, run_pure,
              processRequest, hsign]
      · refine .inr ⟨.error (503, "NSM attestation failed"), ?_⟩
        rw [App.World.attestationIn, hrequest]
        simp only [Nsm.attestIn, if_neg hlength, run_bind, run_pure]

theorem stepAttest_cases (w : World E) (i : Nat) (nonce : String)
    (sign : Bytes → Bytes → Option Quote) :
    (∃ asked identity quote reply,
        unhexChars nonce.toList = some asked ∧
        (w.enclaves i).app.identity = some identity ∧
        sign asked (E.keys.sha256 (utf8 identity)).toList = some quote ∧
        w.stepAttest i nonce sign
          = (w, [.quoted i asked (E.keys.sha256 (utf8 identity)).toList
              w.clock quote, .answered i reply])) ∨
      ∃ reply, w.stepAttest i nonce sign = (w, [.answered i reply]) := by
  unfold World.stepAttest
  rcases attestationIn_cases (w.enclaves i).app i w.clock nonce sign with
    ⟨asked, identity, quote, reply, hnonce, hidentity, hsign, hrun⟩ |
      ⟨reply, hrun⟩
  · refine .inl ⟨asked, identity, quote, reply, hnonce, hidentity, hsign, ?_⟩
    rw [hrun]
    rfl
  · refine .inr ⟨reply, ?_⟩
    rw [hrun]
    rfl

/-- Each step is some steps of the enclave. -/
theorem enclave_view (w : World E) (a : Act T) (i : Nat) :
    ∃ bs, (Process.process E).runFrom (w.enclaves i) bs
      = ((w.step A V a).1.enclaves i,
        (w.step A V a).2.filterMap (enclaveEvent i)) := by
  cases a with
  | enclave j b =>
      simp only [World.step, World.stepEnclave]
      by_cases hj : j = i
      · subst hj
        refine ⟨[b], ?_⟩
        rw [view_map (view_enclave j), Function.update_self]
        show (((w.enclaves j).step b).1, ((w.enclaves j).step b).2 ++ []) = _
        rw [List.append_nil]
      · refine ⟨[], ?_⟩
        rw [view_map_none (g := enclaveEvent i)
          (fun e => by simp [enclaveEvent, hj]),
          Function.update_of_ne (Ne.symm hj)]
        rfl
  | attest j nonce sign =>
      refine ⟨[], ?_⟩
      rcases stepAttest_cases w j nonce sign with
        ⟨_, _, _, _, -, -, -, hstep⟩ | ⟨_, hstep⟩
      · simp only [World.step, hstep]
        rfl
      · simp only [World.step, hstep]
        rfl
  | elsewhere _ => exact ⟨[], rfl⟩
  | tick _ => exact ⟨[], rfl⟩
  | verify _ _ _ _ => exact ⟨[], rfl⟩

/-- Each enclave of the host's runs as a process of its own. -/
theorem exists_process_run (E : App.Enclave T) (A : AttestationCrates)
    (V : VerifierCrates T) (acts : List (Act T)) (i : Nat) :
    ∃ bs, (Process.process E).state bs = ((host E A V).state acts).enclaves i ∧
      (Process.process E).trace bs
        = ((host E A V).trace acts).filterMap (enclaveEvent i) :=
  (host E A V).exists_run_of_view (f := fun w => w.enclaves i) rfl
    (fun _ a _ _ => enclave_view _ a i)

/-! ## The quotes -/

/-- What the NSM documents: a quote for an enclave of the image reports its
registers, the NSM's clock and what the NSM was asked with; one for another
image differs in a register. -/
def Nitro (A : AttestationCrates) (image : Pins) (w : World E) :
    Act T → Prop
  | .attest _ _ sign => ∀ nonce userData quote,
      sign nonce userData = some quote →
      ∃ document, A.decode quote.payload = .ok (.dict document, []) ∧
        Reports document image w.clock nonce userData
  | .elsewhere quote => ∀ document,
      A.decode quote.payload = .ok (.dict document, []) →
      ¬ Measured document image
  | _ => True

/-- What the NSM's promise gives for the events. -/
def Promised (A : AttestationCrates) (V : VerifierCrates T) (image : Pins)
    (_ : List (Event E)) : Event E → Prop
  | .quoted _ nonce userData time quote =>
      ∃ document, A.decode quote.payload = .ok (.dict document, []) ∧
        Reports document image time nonce userData
  | .quotedElsewhere quote => ∀ document,
      A.decode quote.payload = .ok (.dict document, []) →
      ¬ Measured document image
  | .verified c response clock nowMs result =>
      result = verifyResponse A V c response clock nowMs
  | _ => True

theorem promised (E : App.Enclave T) (A : AttestationCrates)
    (V : VerifierCrates T) (image : Pins) {acts : List (Act T)}
    (h : (host E A V).Along (Nitro A image) acts) :
    Always (Promised A V image) ((host E A V).trace acts) := by
  refine (host E A V).always_along ?_ h
  intro acts a hgenuine pre e post hnew
  have hmem : e ∈ (((host E A V).state acts).step A V a).2 := by
    rw [show (((host E A V).state acts).step A V a).2 = _ from hnew]
    exact List.mem_append_right _ List.mem_cons_self
  cases a with
  | enclave j b =>
      obtain ⟨x, -, rfl⟩ := List.mem_map.mp hmem
      trivial
  | attest j nonce sign =>
      rcases stepAttest_cases ((host E A V).state acts) j nonce sign with
        ⟨asked, identity, quote, reply, -, -, hsign, hstep⟩ | ⟨reply, hstep⟩
      · simp only [World.step, hstep, List.mem_cons, List.not_mem_nil,
          or_false] at hmem
        rcases hmem with rfl | rfl
        · exact hgenuine.last asked _ quote hsign
        · trivial
      · simp only [World.step, hstep, List.mem_singleton] at hmem
        subst hmem
        trivial
  | elsewhere quote =>
      have heq : e = .quotedElsewhere quote := List.mem_singleton.mp hmem
      subst heq
      exact hgenuine.last
  | tick _ => cases hmem
  | verify c response clock nowMs =>
      have heq : e = .verified c response clock nowMs _ :=
        List.mem_singleton.mp hmem
      subst heq
      rfl

/-! ## The publications -/

/-- The enclave has published these locals of `install`, whose root it derived
from KMS's answer for their settings. -/
def Publishes (pre : List (Event E)) (i k : Nat) (l : App.Install E) : Prop :=
  .enclave i (.app (.published k l.identity)) ∈ pre ∧
    ∃ answer, .enclave i (.app (.derived k answer l.root)) ∈ pre ∧
      deriveFinish E.keys l.settings answer = .ok l.root

/-- The enclave's publication, in this state and after this trace. -/
def Publication (w : World E) (es : List (Event E)) (i k : Nat)
    (l : App.Install E) : Prop :=
  App.Publication (w.enclaves i).app
    ((es.filterMap (enclaveEvent i)).filterMap Process.appEvent) k l

theorem Publication.publishes {w : World E} {es : List (Event E)} {i k : Nat}
    {l : App.Install E} (h : Publication w es i k l) :
    Publishes es i k l := by
  have hview : ∀ {x}, x ∈ (es.filterMap (enclaveEvent i)).filterMap
      Process.appEvent → .enclave i (.app x) ∈ es :=
    fun hx => (mem_view (view_enclave i)).mp ((mem_view Process.view_app).mp hx)
  obtain ⟨answer, hderived, hroot⟩ := h.derived
  exact ⟨hview h.published, answer, hview hderived, hroot⟩

theorem Publication.step {w : World E} {es : List (Event E)} {i k : Nat}
    {l : App.Install E} (h : Publication w es i k l) (a : Act T) :
    Publication (w.step A V a).1 (es ++ (w.step A V a).2) i k l := by
  have hview : ∃ bs, (Process.process E).runFrom (w.enclaves i) bs
      = (((host E A V).step w a).1.enclaves i,
        ((host E A V).step w a).2.filterMap (enclaveEvent i)) :=
    enclave_view w a i
  exact (host E A V).stable_of_view (f := fun v : World E => v.enclaves i)
    (P := fun (v : Process.World E) xs =>
      App.Publication v.app (xs.filterMap Process.appEvent) k l)
    (fun _ _ b hv => Process.publication_step hv b) hview h

/-- A quote on record answers a request for the nonce at the enclave, and is
for the identity that the enclave had published by then and keeps. -/
theorem quoted_publication (E : App.Enclave T) (A : AttestationCrates)
    (V : VerifierCrates T) {acts : List (Act T)}
    {early late : List (Event E)} {i time : Nat} {nonce userData : Bytes}
    {quote : Quote}
    (h : (host E A V).trace acts
      = early ++ .quoted i nonce userData time quote :: late) :
    (∃ text sign, .attest i text sign ∈ acts ∧
      unhexChars text.toList = some nonce) ∧
    ∃ k l, Publishes early i k l ∧
      Publication ((host E A V).state acts) ((host E A V).trace acts) i k l ∧
      userData = (E.keys.sha256 (utf8 l.identity)).toList := by
  obtain ⟨before, a, after, x, y, rfl, hstep, rfl⟩ :=
    (host E A V).exists_step_of_cut h
  have hmem : .quoted i nonce userData time quote
      ∈ (((host E A V).state before).step A V a).2 := by
    rw [show (((host E A V).state before).step A V a).2 = _ from hstep]
    exact List.mem_append_right _ List.mem_cons_self
  cases a with
  | attest j text sign =>
      rcases stepAttest_cases ((host E A V).state before) j text sign with
        ⟨asked, identity, q, reply, hnonce, hidentity, -, hcase⟩ |
          ⟨reply, hcase⟩
      · simp only [World.step, hcase, List.mem_cons, List.not_mem_nil,
          or_false, reduceCtorEq] at hmem
        injection hmem with hi hasked huser _ _
        subst hi hasked
        obtain ⟨bs, hstate, htrace⟩ := exists_process_run E A V before i
        rw [← hstate] at hidentity
        obtain ⟨k, l, hp, rfl⟩ := Process.exists_publication E bs hidentity
        rw [hstate, htrace] at hp
        have hpublished : Publication ((host E A V).state before)
            ((host E A V).trace before) i k l := hp
        obtain ⟨hmark, answer, hderived, hroot⟩ := hpublished.publishes
        refine ⟨⟨text, sign, by simp, hnonce⟩, k, l,
          ⟨List.mem_append_left _ hmark, answer,
            List.mem_append_left _ hderived, hroot⟩, ?_, huser⟩
        exact (host E A V).stable_append
          (P := fun w es => Publication w es i k l) hpublished
          (fun _ b ih => ih.step b) _
      · simp only [World.step, hcase, List.mem_singleton,
          reduceCtorEq] at hmem
  | enclave j b =>
      obtain ⟨_, _, heq⟩ := List.mem_map.mp hmem
      cases heq
  | elsewhere _ | verify _ _ _ _ => cases List.mem_singleton.mp hmem
  | tick _ => cases hmem

/-! ## Acceptance -/

/-- What the NSM has signed. -/
def quotes (es : List (Event E)) : List Quote :=
  es.filterMap fun
    | .quoted _ _ _ _ quote => some quote
    | .quotedElsewhere quote => some quote
    | _ => none

theorem mem_quotes {es : List (Event E)} {quote : Quote}
    (h : quote ∈ quotes es) :
    (∃ i nonce userData time, .quoted i nonce userData time quote ∈ es) ∨
      .quotedElsewhere quote ∈ es := by
  obtain ⟨e, he, hmark⟩ := List.mem_filterMap.mp h
  cases e with
  | quoted i nonce userData time q =>
      injection hmark with hmark
      subst hmark
      exact .inl ⟨i, nonce, userData, time, he⟩
  | quotedElsewhere q =>
      injection hmark with hmark
      subst hmark
      exact .inr he
  | _ => cases hmark

/-- The signature that the response shows was not forged: if it is accepted
under the trusted root, the NSM has signed that message. -/
def Unforged (A : AttestationCrates) (es : List (Event E)) (c : Challenge)
    (response : Json) (clock : Nat) : Prop :=
  ∀ members e, presented A response = .ok (members, e) →
    authenticate A c.trustedRoot clock e = .ok () →
    ∃ quote ∈ quotes es, signedMessage A quote.header quote.payload
      = signedMessage A e.header e.payload

/-- The identities that enclaves of the image have published. -/
def identities (es : List (Event E)) : List String :=
  es.filterMap fun
    | .enclave _ (.app (.published _ identity)) => some identity
    | _ => none

theorem Publishes.mem_identities {es : List (Event E)} {i k : Nat}
    {l : App.Install E} (h : Publishes es i k l) :
    l.identity ∈ identities es :=
  List.mem_filterMap.mpr ⟨_, h.1, rfl⟩

section

variable (E : App.Enclave T) (A : AttestationCrates) (V : VerifierCrates T)

/-- An accepted response goes back to one quote for an enclave of the pinned
image, asked with the verifier's nonce after the enclave had published. -/
theorem accepted_publication (laws : WireLaws E V)
    (hsha : E.keys.sha256 = V.sha256)
    (hdumps : ∀ header payload header' payload',
      signedMessage A header payload = signedMessage A header' payload' →
      header = header' ∧ payload = payload')
    {acts : List (Act T)} {pre post : List (Event E)} {c : Challenge}
    {response : Json} {clock : Nat} {nowMs : Int} {identity : Json}
    (hnitro : (host E A V).Along (Nitro A c.pins) acts)
    (h : (host E A V).trace acts
      = pre ++ .verified c response clock nowMs (.ok identity) :: post)
    (hunforged : Unforged A pre c response clock)
    (hfree : CollisionFree V.sha256
      (((identityText response).toList ++ identities pre).map utf8)) :
    ∃ i k l quote early late, ∃ time : Nat,
      (∃ text sign, .attest i text sign ∈ acts ∧
        unhexChars text.toList = some c.nonce) ∧
      pre = early ++ .quoted i c.nonce
        (E.keys.sha256 (utf8 l.identity)).toList time quote :: late ∧
      Publishes early i k l ∧
      Publication ((host E A V).state acts) ((host E A V).trace acts) i k l ∧
      nowMs - 300000 ≤ (time : Int) ∧ (time : Int) ≤ nowMs + 5000 ∧
      identity = (App.identityOf E l.oracle (some l.settings)).json V ∧
      Json.eq l.settings.json c.settings = true ∧
      Json.eq (programProfile E.oracles).json c.programProfile = true := by
  have hpromised := promised E A V c.pins hnitro
  obtain ⟨text, hattested, hverified⟩ :=
    verifyResponse_ok (hpromised pre _ post h).symm
  obtain ⟨htext, members, e, time, hpresented, hauthentic, hdecode, hlow,
    hhigh, hreports⟩ := attested_ok hattested
  obtain ⟨quote, hquote, hmessage⟩ := hunforged members e hpresented hauthentic
  obtain ⟨-, hpayload⟩ := hdumps _ _ _ _ hmessage
  rw [← hpayload] at hdecode
  have hcut : ∀ {x early late}, pre = early ++ x :: late →
      (host E A V).trace acts = early ++ x :: (late ++ .verified c response
        clock nowMs (.ok identity) :: post) := by
    intro x early late hpre
    rw [h, hpre, List.append_assoc, List.cons_append]
  rcases mem_quotes hquote with ⟨i, nonce, asked, time', hmem⟩ | hmem
  · obtain ⟨early, late, hpre⟩ := List.append_of_mem hmem
    obtain ⟨document, hdocument, hquoted⟩ :=
      hpromised early _ _ (hcut hpre)
    obtain ⟨hasked, k, l, hpublishes, hpublication, rfl⟩ :=
      quoted_publication E A V (hcut hpre)
    rw [hdecode] at hdocument
    simp only [Except.ok.injEq, Prod.mk.injEq, Value.dict.injEq,
      and_true] at hdocument
    subst hdocument
    obtain ⟨rfl, rfl, huser⟩ := hreports.unique hquoted
    have hsame : text = l.identity := by
      rw [hsha] at huser
      refine utf8_inj (hfree _ ?_ _ ?_ (Vector.toList_inj.mp huser))
      · refine List.mem_map_of_mem (List.mem_append_left _ ?_)
        rw [htext]
        exact List.mem_singleton.mpr rfl
      · refine List.mem_map_of_mem (List.mem_append_right _ ?_)
        rw [hpre, identities, List.filterMap_append]
        exact List.mem_append_left _ hpublishes.mem_identities
    rw [hsame] at hverified
    exact ⟨i, k, l, quote, early, late, time', hasked, hpre, hpublishes,
      hpublication, hlow, hhigh, verifyIdentity_published laws hverified⟩
  · obtain ⟨early, late, hpre⟩ := List.append_of_mem hmem
    exact absurd hreports.measured
      (hpromised early _ _ (hcut hpre) e.document hdecode)

/-- An enclave's release names the root of the identity it has published, and
is made by the signer it has installed. -/
theorem release_root (laws : WireLaws E V)
    (horacle : ∀ root registry oracle,
      E.oracles.oracleNew root registry = .ok oracle →
      E.oracles.oraclePublicRoot oracle = E.crates.fromPriv root)
    {acts : List (Act T)} {pre post : List (Event E)} {i k call : Nat}
    {l : App.Install E} {request : FinishRequest} {response : FinishResponse}
    (hpublication : Publication ((host E A V).state acts)
      ((host E A V).trace acts) i k l)
    (h : (host E A V).trace acts = pre ++
      .enclave i (.signer (.finished call request (.ok response))) :: post) :
    ∃ prepare, Backed E.crates l.arkSigner
        ((pre.filterMap (enclaveEvent i)).filterMap Process.signerEvent) call
        response prepare ∧
      rootText V l.oracle
        = base58Check V.sha256 (V.xpub prepare.key.root).encode := by
  obtain ⟨bs, hstate, htrace⟩ := exists_process_run E A V acts i
  rw [Publication, ← hstate, ← htrace] at hpublication
  rw [h, List.filterMap_append,
    List.filterMap_cons_some (enclaveEvent_self i _)] at htrace
  obtain ⟨j, m, hother, -, prepare, hbacked, hroot⟩ :=
    Process.release_publication E horacle bs htrace
  have hsigner : l.arkSigner = m.arkSigner := by
    have heq := hother.arkSigner
    rw [hpublication.arkSigner] at heq
    exact Option.some.inj heq
  have hidentity : l.identity = m.identity := by
    have heq := hother.identity
    rw [hpublication.identity] at heq
    exact Option.some.inj heq
  have hjson := loads_identity laws l
  rw [hidentity, loads_identity laws m] at hjson
  have hxpub := congrArg (Json.get · "xpub")
    (Json.obj.inj (Option.some.inj hjson))
  have hkey : some (Json.str (rootText V m.oracle))
      = some (Json.str (rootText V l.oracle)) := hxpub
  injection hkey with hkey
  injection hkey with hkey
  refine ⟨prepare, ?_, ?_⟩
  · rw [hsigner]
    exact hbacked
  · rw [hroot]
    exact hkey.symm

/-- What an accepted attestation stands for. An enclave of the pinned image
was requested for the verifier's nonce and asked the NSM with it, within the
window of the verifier's clock, after it had published the accepted identity;
that identity has the expected settings and profile, and its root was derived
from KMS's answer for these settings. The enclave never publishes another, and
every share it ever releases is made by the signer that was installed with it,
with the nonce of a prepare that passed every check and names the accepted
key. -/
theorem accepted_governs (laws : WireLaws E V)
    (horacle : ∀ root registry oracle,
      E.oracles.oracleNew root registry = .ok oracle →
      E.oracles.oraclePublicRoot oracle = E.crates.fromPriv root)
    (hsha : E.keys.sha256 = V.sha256)
    (hdumps : ∀ header payload header' payload',
      signedMessage A header payload = signedMessage A header' payload' →
      header = header' ∧ payload = payload')
    (acts : List (Act T)) (pre post : List (Event E)) (c : Challenge)
    (response : Json) (clock : Nat) (nowMs : Int) (identity : Json)
    (hnitro : (host E A V).Along (Nitro A c.pins) acts)
    (h : (host E A V).trace acts
      = pre ++ .verified c response clock nowMs (.ok identity) :: post)
    (hunforged : Unforged A pre c response clock)
    (hfree : CollisionFree V.sha256
      (((identityText response).toList ++ identities pre).map utf8)) :
    ∃ i k l quote early late, ∃ time : Nat,
      (∃ text sign, .attest i text sign ∈ acts ∧
        unhexChars text.toList = some c.nonce) ∧
      pre = early ++ .quoted i c.nonce
        (E.keys.sha256 (utf8 l.identity)).toList time quote :: late ∧
      Publishes early i k l ∧
      Publication ((host E A V).state acts) ((host E A V).trace acts) i k l ∧
      nowMs - 300000 ≤ (time : Int) ∧ (time : Int) ≤ nowMs + 5000 ∧
      identity = (App.identityOf E l.oracle (some l.settings)).json V ∧
      Json.eq l.settings.json c.settings = true ∧
      Json.eq (programProfile E.oracles).json c.programProfile = true ∧
      ∀ before after call request share,
        (host E A V).trace acts = before ++
          .enclave i (.signer (.finished call request (.ok share))) :: after →
        ∃ prepare, Backed E.crates l.arkSigner
            ((before.filterMap (enclaveEvent i)).filterMap Process.signerEvent)
            call share prepare ∧
          rootText V l.oracle
            = base58Check V.sha256 (V.xpub prepare.key.root).encode := by
  obtain ⟨i, k, l, quote, early, late, time, hasked, hpre, hpublishes,
    hpublication, hlow, hhigh, hidentity, hsettings, hprofile⟩ :=
    accepted_publication E A V laws hsha hdumps hnitro h hunforged hfree
  refine ⟨i, k, l, quote, early, late, time, hasked, hpre, hpublishes,
    hpublication, hlow, hhigh, hidentity, hsettings, hprofile, ?_⟩
  intro before after call request share hrelease
  exact release_root E A V laws horacle hpublication hrelease

/-! ## An honest run -/

/-- An NSM that answers as documented, and certificates that the verifier's
store accepts. -/
def HonestNsm (trustedRoot : Bytes) (clock : Nat) (time : Int) (image : Pins)
    (nsm : Bytes → Bytes → Nsm.Response) : Prop :=
  ∀ nonce userData, nonce.length ≤ 64 → userData.length = 32 →
    ∃ encoded e, nsm nonce userData = .attestation encoded ∧
      Encodes A encoded e ∧ Certified A trustedRoot clock e ∧
      Reports e.document image time nonce userData

theorem attestationRequest_of {w : App.World E} {nonce : String}
    {asked : Bytes} {identity : String} (hnsm : E.nsm = true)
    (hnonce : unhexChars nonce.toList = some asked)
    (hshort : 16 ≤ asked.length) (hlong : asked.length ≤ 64)
    (hidentity : w.identity = some identity) :
    w.attestationRequest nonce = .ok (asked, identity) := by
  simp only [App.World.attestationRequest, hnonce, hshort, hlong, and_self,
    if_true, hidentity, hnsm]

theorem attestation_of {w : App.World E} {nonce : String} {asked : Bytes}
    {identity : String} {nsm : Bytes → Bytes → Nsm.Response}
    {encoded : Bytes} (hnsm : E.nsm = true)
    (hnonce : unhexChars nonce.toList = some asked)
    (hshort : 16 ≤ asked.length) (hlong : asked.length ≤ 64)
    (hidentity : w.identity = some identity)
    (hanswer : nsm asked (E.keys.sha256 (utf8 identity)).toList
      = .attestation encoded) :
    w.attestation nsm nonce = .ok (honestResponse identity encoded) := by
  have hattest : Nsm.attestIn (m := Id) E.keys.sha256 nsm asked identity
      = .ok encoded := by
    rw [Nsm.attestIn, if_pos ⟨hshort, hlong⟩]
    simp only [hanswer]
    rfl
  rw [App.World.attestation, App.World.attestationIn,
    attestationRequest_of E hnsm hnonce hshort hlong hidentity]
  simp only [hattest]
  rfl

/-- The identity of every enclave is accepted under the record it was set up
with. -/
theorem verifyIdentity_of (laws : WireLaws E V) (hnsm : E.nsm = true)
    {l : App.Install E} {answer : Except String SharedSecretOutput}
    (hroot : deriveFinish E.keys l.settings answer = .ok l.root)
    {record : Json} (hinit : Initialize.validateSettings record = .ok ())
    (haccepts : SetupAccepts record l.settings) :
    verifyIdentity V l.identity record (programProfile E.oracles).json
      = .ok ((App.identityOf E l.oracle (some l.settings)).json V) := by
  obtain ⟨members, rfl, hagreed⟩ := exists_agreed hinit haccepts.1
  have hread := loads_identity laws l
  have hkind := (programOracle_kind laws l.oracle_eq).trans
    (deriveFinish_kind laws hroot)
  rw [identityOf_json V hnsm] at hread ⊢
  refine verifyIdentity_members ?_ (verifierSettings_ok hagreed)
    (item_of_get hagreed.network) (validateProgramProfile_json laws)
    (eq_profile E.oracles) hagreed.eq_record
    (validateXpub_ok V hkind (laws.publicKey_point _))
  rw [Verifier.jsonValue, hread]
  rfl

/-- The response of an enclave with this publication is accepted. -/
theorem verifyResponse_of (laws : WireLaws E V) (hnsm : E.nsm = true)
    {l : App.Install E} {answer : Except String SharedSecretOutput}
    (hroot : deriveFinish E.keys l.settings answer = .ok l.root)
    {record : Json} (hinit : Initialize.validateSettings record = .ok ())
    (haccepts : SetupAccepts record l.settings) {pins : Pins}
    {nonce trustedRoot encoded : Bytes} {e : Envelope} {clock : Nat}
    {time nowMs : Int} (hencodes : Encodes A encoded e)
    (hcertified : Certified A trustedRoot clock e)
    (hreports : Reports e.document pins time nonce
      (V.sha256 (utf8 l.identity)).toList)
    (hall : allPinned pins = true) (hvalid : ∀ pin ∈ pins, ValidPin pin)
    (hlow : nowMs - 300000 ≤ time) (hhigh : time ≤ nowMs + 5000)
    (hshort : 16 ≤ nonce.length) (hlong : nonce.length ≤ 64) :
    verifyResponse A V ⟨record, (programProfile E.oracles).json, nonce, pins,
        trustedRoot⟩ (honestResponse l.identity encoded).json clock nowMs
      = .ok ((App.identityOf E l.oracle (some l.settings)).json V) := by
  obtain ⟨members, hrecord, hagreed⟩ := exists_agreed hinit haccepts.1
  rw [verifyResponse, verify, validateProgramProfile_json laws, ok_bind]
  simp only [hrecord, verifierSettings_ok hagreed, ok_bind]
  rw [attested_of hencodes hcertified hreports hall hvalid hlow hhigh hshort
    hlong, ok_bind, ← hrecord]
  exact verifyIdentity_of E V laws hnsm hroot hinit haccepts

/-- Every enclave that has published is accepted: whatever its setup and
whatever happened in its process, if it opened the NSM and the NSM answers as
documented, its answer to a nonce of 16 to 64 bytes passes every check of a
verifier that pins its registers and expects its record, within the window of
the verifier's clock. -/
theorem published_accepted (laws : WireLaws E V) (hnsm : E.nsm = true)
    (hsha : E.keys.sha256 = V.sha256) (acts : List (Process.Act T))
    (text : String)
    (hidentity : ((Process.process E).state acts).app.identity = some text)
    (fd : Int) (processRequest : Nat → Nsm.Response)
    (hopen : Nsm.open fd processRequest = .ok ()) (trustedRoot : Bytes)
    (clock : Nat) (time nowMs : Int)
    (nsm : Bytes → Bytes → Nsm.Response)
    (honest : HonestNsm A trustedRoot clock time
      (Nsm.measurements processRequest) nsm)
    (hlow : nowMs - 300000 ≤ time) (hhigh : time ≤ nowMs + 5000)
    (nonce : String) (asked : Bytes)
    (hnonce : unhexChars nonce.toList = some asked)
    (hshort : 16 ≤ asked.length) (hlong : asked.length ≤ 64) :
    ∃ k l response,
      App.Publication ((Process.process E).state acts).app
        (((Process.process E).trace acts).filterMap Process.appEvent) k l ∧
      ((Process.process E).state acts).app.attestation nsm nonce
        = .ok response ∧
      ∀ record, Initialize.validateSettings record = .ok () →
        SetupAccepts record l.settings →
        verifyResponse A V ⟨record, (programProfile E.oracles).json, asked,
            Nsm.measurements processRequest, trustedRoot⟩ response.json clock
            nowMs
          = .ok ((App.identityOf E l.oracle (some l.settings)).json V) := by
  obtain ⟨k, l, hp, rfl⟩ := Process.exists_publication E acts hidentity
  obtain ⟨encoded, e, hanswer, hencodes, hcertified, hreports⟩ :=
    honest asked (E.keys.sha256 (utf8 l.identity)).toList hlong
      Vector.length_toList
  obtain ⟨hall, hvalid⟩ := Nsm.validPins_of_open hopen
  refine ⟨k, l, _, hp, attestation_of E hnsm hnonce hshort hlong hidentity
    hanswer, ?_⟩
  intro record hinit haccepts
  obtain ⟨kms, -, hroot⟩ := hp.derived
  rw [hsha] at hreports
  exact verifyResponse_of E A V laws hnsm hroot hinit haccepts hencodes
    hcertified hreports hall hvalid hlow hhigh hshort hlong

end

/-! ## A challenge on regtest

The document is symbolic: its encoding is a mark and what the NSM was asked
with, the rest is the same in every document. -/

namespace Regtest

/-- The same program over another hash. -/
def rehashed (E : App.Enclave T) (sha256 : Bytes → Hash) : App.Enclave T :=
  { E with keys := { E.keys with sha256 := sha256 } }

theorem rehashed_laws {E : App.Enclave T} {V : VerifierCrates T}
    (h : WireLaws E V) (sha256 : Bytes → Hash) :
    WireLaws (rehashed E sha256) V :=
  ⟨h.toJson_text, h.newMaster_kind, h.publicRoot_kind, h.publicKey_point,
    h.wasmId_eq, h.wasmV2Id_eq, h.unreserved⟩

/-- The regtest enclave, with the hash its verifier uses. -/
def enclave : App.Enclave symbolicTypes :=
  rehashed SapioTee.Regtest.enclave SapioTee.Regtest.sha256

theorem laws : WireLaws enclave SapioTee.Regtest.verifier :=
  rehashed_laws SapioTee.Regtest.laws _

def header : Bytes := [0xa1, 0x01, 0x38, 0x22]

def signature : Bytes := List.replicate 96 1

def register (n : UInt8) : Bytes := List.replicate 48 n

def image : Pins := [(0, register 1), (1, register 2), (2, register 3)]

/-- What the NSM reports, at one time. -/
def document (nonce userData : Bytes) : Pairs :=
  [(.str "digest", .str "SHA384"), (.str "timestamp", .int 1000),
    (.str "pcrs", .dict [(.int 0, .bytes (register 1)),
      (.int 1, .bytes (register 2)), (.int 2, .bytes (register 3))]),
    (.str "certificate", .bytes [7]), (.str "cabundle", .list []),
    (.str "nonce", .bytes nonce), (.str "user_data", .bytes userData)]

/-- A payload is the nonce and the user data, after a mark. -/
def payload (nonce userData : Bytes) : Bytes := 2 :: (userData ++ nonce)

def decode (raw : Bytes) : Except String (Value × Bytes) :=
  match raw with
  | 1 :: payload => .ok (.list [.bytes header, .dict [], .bytes payload,
      .bytes signature], [])
  | 2 :: rest => .ok (.dict (document (rest.drop 32) (rest.take 32)), [])
  | raw =>
      if raw = header then .ok (.dict [(.int 1, .int (-35))], [])
      else .error "CBORDecodeError"

/-- The message is its two parts, the length of the first in front. -/
def dumps : Value → Bytes
  | .list [_, .bytes header, _, .bytes payload] =>
      List.replicate header.length 1 ++ 0 :: (header ++ payload)
  | _ => []

/-- One certificate, whose key has signed with the one signature. -/
def crates : AttestationCrates where
  Certificate := Bytes
  PublicKey := Bytes
  decode := decode
  dumps := dumps
  loadPem := .ok
  loadDer := fun
    | .bytes certificate => .ok certificate
    | _ => .error "no certificate"
  verifyCertificate := fun _ _ _ _ => .ok ()
  publicKey := fun certificate => .ok (some certificate)
  verifySignature := fun _ r s _ =>
    if r = beNat (register 1) ∧ s = beNat (register 1) then .ok ()
    else .error "InvalidSignature"

theorem signedMessage_inj (header payload header' payload' : Bytes)
    (h : signedMessage crates header payload
      = signedMessage crates header' payload') :
    header = header' ∧ payload = payload' := by
  have hunary : ∀ (n m : Nat) (x y : Bytes),
      List.replicate n (1 : UInt8) ++ 0 :: x = List.replicate m 1 ++ 0 :: y →
      n = m ∧ x = y := by
    intro n
    induction n with
    | zero =>
        intro m x y heq
        cases m with
        | zero =>
            injection heq with _ heq
            exact ⟨rfl, heq⟩
        | succ m => cases heq
    | succ n ih =>
        intro m x y heq
        cases m with
        | zero => cases heq
        | succ m =>
            injection heq with _ heq
            obtain ⟨hn, hxy⟩ := ih m x y heq
            exact ⟨by rw [hn], hxy⟩
  obtain ⟨hlength, hrest⟩ := hunary _ _ _ _ h
  exact List.append_inj hrest hlength

/-- The NSM over these crates. -/
def nsm (nonce userData : Bytes) : Nsm.Response :=
  .attestation (1 :: payload nonce userData)

def describe (index : Nat) : Nsm.Response :=
  .describePcr true (register (UInt8.ofNat (index + 1)))

theorem reports {nonce userData : Bytes} (h : userData.length = 32) :
    Reports (document ((userData ++ nonce).drop 32)
      ((userData ++ nonce).take 32)) image 1000 nonce userData := by
  rw [List.drop_left' h, List.take_left' h]
  refine ⟨rfl, ⟨_, _, rfl, rfl, ?_⟩, rfl, rfl, rfl⟩
  intro pin hpin
  simp only [image, List.mem_cons, List.not_mem_nil, or_false] at hpin
  rcases hpin with rfl | rfl | rfl <;> rfl

/-- The envelope of what the NSM answers. -/
def envelope (nonce userData : Bytes) : Envelope where
  header := header
  payload := payload nonce userData
  signature := signature
  document := document ((userData ++ nonce).drop 32)
    ((userData ++ nonce).take 32)

theorem encodes {nonce userData : Bytes} (hnonce : nonce.length ≤ 64)
    (huser : userData.length = 32) :
    Encodes crates (1 :: payload nonce userData)
      (envelope nonce userData) := by
  refine ⟨?_, .inl rfl, rfl, rfl, rfl⟩
  simp only [payload, List.length_cons, List.length_append]
  omega

theorem certified (nonce userData : Bytes) :
    Certified crates [] 0 (envelope nonce userData) :=
  ⟨[], [7], [7], [], [], [7], rfl, rfl, rfl, rfl, Nat.zero_le _, .nil, rfl, rfl,
    rfl⟩

theorem honest : HonestNsm crates [] 0 1000 image nsm := by
  intro nonce userData hnonce huser
  exact ⟨_, envelope nonce userData, rfl, encodes hnonce huser,
    certified nonce userData, reports huser⟩

def nonce : String := "000102030405060708090a0b0c0d0e0f"

def asked : Bytes := [0, 1, 2, 3, 4, 5, 6, 7, 8, 9, 10, 11, 12, 13, 14, 15]

theorem unhexChars_nonce : unhexChars nonce.toList = some asked := by
  decide +kernel

/-- The setup of one enclave. -/
def setupRun : List (Process.Act symbolicTypes) :=
  Symbolic.publishedRun.map .app

theorem identity_setupRun :
    ((Process.process enclave).state setupRun).app.identity
      = some SapioTee.Regtest.text := by
  rfl

theorem started_setupRun :
    App.startedSettings (((Process.process enclave).trace setupRun).filterMap
      Process.appEvent) = [Symbolic.settings] := by
  rfl

theorem settings_of_publication {k : Nat} {l : App.Install enclave}
    (h : App.Publication ((Process.process enclave).state setupRun).app
      (((Process.process enclave).trace setupRun).filterMap Process.appEvent)
      k l) : l.settings = Symbolic.settings := by
  have hmem := App.mem_startedSettings h.started
  rw [started_setupRun] at hmem
  exact List.mem_singleton.mp hmem

/-- What the verifier brings along. -/
def challenge : Challenge where
  settings := SapioTee.Regtest.record
  programProfile := (programProfile enclave.oracles).json
  nonce := asked
  pins := image
  trustedRoot := []

/-- What an enclave with this identity asks the NSM to bind. -/
def userData (text : String) : Bytes :=
  (SapioTee.Regtest.sha256 (utf8 text)).toList

theorem length_userData (text : String) : (userData text).length = 32 :=
  Vector.length_toList

/-- What the NSM signs when it is asked with these. -/
def quoteFor (nonce userData : Bytes) : Quote where
  header := header
  payload := payload nonce userData
  document := 1 :: payload nonce userData

/-- It takes user data of one size. -/
def sign (nonce userData : Bytes) : Option Quote :=
  if userData.length = 32 then some (quoteFor nonce userData) else none

def quoteOf (text : String) : Quote := quoteFor asked (userData text)

def quote : Quote := quoteOf SapioTee.Regtest.text

def responseOf (text : String) : Json :=
  (honestResponse text (quoteOf text).document).json

def response : Json := responseOf SapioTee.Regtest.text

/-- The enclave is set up and some time passes. -/
def quietRun : List (Act symbolicTypes) :=
  setupRun.map (.enclave 0) ++ [.tick 1000]

def quotedRun : List (Act symbolicTypes) :=
  quietRun ++ [.attest 0 nonce sign]

def challengeRun : List (Act symbolicTypes) :=
  quotedRun ++ [.verify challenge response 0 1000]

/-- The host over all this. -/
abbrev machine := host enclave crates SapioTee.Regtest.verifier

theorem identity_quietRun :
    ((machine.state quietRun).enclaves 0).app.identity
      = some SapioTee.Regtest.text := by
  rfl

theorem clock_quietRun : (machine.state quietRun).clock = 1000 := by
  rfl

theorem identities_quietRun :
    identities (machine.trace quietRun) = [SapioTee.Regtest.text] := by
  rfl

theorem request_quietRun :
    ((machine.state quietRun).enclaves 0).app.attestationRequest nonce
      = .ok (asked, SapioTee.Regtest.text) :=
  attestationRequest_of enclave rfl unhexChars_nonce (by decide) (by decide)
    identity_quietRun

theorem signed_text {v : App.World enclave} {text : String}
    (h : v.attestationRequest nonce = .ok (asked, text)) :
    v.attestationIn (processRequest (E := enclave) 0 1000 sign) nonce []
      = (.ok ⟨text, String.ofList (base64Chars (quoteOf text).document)⟩,
        [.quoted 0 asked (userData text) 1000 (quoteOf text)]) :=
  attestationIn_signed h (by decide) (if_pos (length_userData text))

theorem trace_quotedRun :
    ∃ reply, machine.trace quotedRun = machine.trace quietRun ++
      [.quoted 0 asked (userData SapioTee.Regtest.text) 1000 quote,
        .answered 0 reply] := by
  have hattest := signed_text request_quietRun
  refine ⟨.ok ⟨SapioTee.Regtest.text,
    String.ofList (base64Chars quote.document)⟩, ?_⟩
  rw [quotedRun, Machine.trace_concat]
  refine congrArg (machine.trace quietRun ++ ·) ?_
  show ((machine.state quietRun).stepAttest 0 nonce sign).2 = _
  rw [World.stepAttest, clock_quietRun, hattest]
  rfl

theorem decode_payload (nonce userData : Bytes) :
    decode (payload nonce userData)
      = .ok (.dict (envelope nonce userData).document, []) := rfl

theorem nitro_challengeRun :
    machine.Along (Nitro crates challenge.pins) challengeRun := by
  have hquiet : machine.Along (Nitro crates image) quietRun := by
    intro pre a post hcut
    have hmem : a ∈ quietRun := by simp [hcut]
    rcases List.mem_append.mp hmem with hmem | hmem
    · obtain ⟨b, -, rfl⟩ := List.mem_map.mp hmem
      trivial
    · rw [List.mem_singleton.mp hmem]
      trivial
  refine (hquiet.concat ?_).concat trivial
  intro nonce userData q hsign
  rw [sign] at hsign
  split at hsign
  · next hlength =>
      injection hsign with hsign
      rw [← hsign, clock_quietRun]
      exact ⟨_, decode_payload nonce userData, reports hlength⟩
  · cases hsign

theorem verified_challenge : ∃ identity,
    verifyResponse crates SapioTee.Regtest.verifier challenge response 0 1000
      = .ok identity := by
  obtain ⟨k, l, hp, htext⟩ :=
    Process.exists_publication enclave setupRun identity_setupRun
  obtain ⟨kms, -, hroot⟩ := hp.derived
  obtain ⟨hall, hvalid⟩ := @Nsm.validPins_of_open 3 describe () rfl
  have haccepts : SetupAccepts SapioTee.Regtest.record l.settings := by
    rw [settings_of_publication hp]
    exact SapioTee.Regtest.accepts_record
  have hreports := @reports asked (userData l.identity) (length_userData _)
  have hlow : (1000 : Int) - 300000 ≤ 1000 := by decide
  have haccepted := verifyResponse_of enclave crates SapioTee.Regtest.verifier
    laws rfl hroot SapioTee.Regtest.validateSettings_record haccepts
    (encodes (by decide) (length_userData l.identity)) (certified _ _)
    hreports hall hvalid hlow (by decide) (by decide) (by decide)
  rw [htext] at haccepted
  exact ⟨_, haccepted⟩

theorem signedMessage_quoteOf (text : String) :
    signedMessage crates (quoteOf text).header (quoteOf text).payload
      = signedMessage crates (envelope asked (userData text)).header
        (envelope asked (userData text)).payload := rfl

theorem unforged_challenge :
    Unforged crates (machine.trace quotedRun) challenge response 0 := by
  intro members e hpresented _
  obtain ⟨reply, htrace⟩ := trace_quotedRun
  refine ⟨quote, ?_, ?_⟩
  · rw [htrace]
    refine List.mem_filterMap.mpr ⟨.quoted 0 asked
      (userData SapioTee.Regtest.text) 1000 quote, ?_, rfl⟩
    exact List.mem_append_right _ List.mem_cons_self
  · have hopened := presented_of SapioTee.Regtest.text
      (@encodes asked (userData SapioTee.Regtest.text) (by decide)
        (length_userData _))
    have he : e = envelope asked (userData SapioTee.Regtest.text) :=
      congrArg Prod.snd (Except.ok.inj (hpresented.symm.trans hopened))
    rw [he, quote]
    exact signedMessage_quoteOf SapioTee.Regtest.text

theorem collisionFree_challenge :
    CollisionFree SapioTee.Regtest.verifier.sha256
      (((identityText response).toList ++
        identities (machine.trace quotedRun)).map utf8) := by
  obtain ⟨reply, htrace⟩ := trace_quotedRun
  have hidentities : identities (machine.trace quotedRun)
      = [SapioTee.Regtest.text] := by
    rw [htrace, identities, List.filterMap_append]
    exact congrArg (· ++ []) identities_quietRun
  have htext : identityText response = some SapioTee.Regtest.text := rfl
  rw [hidentities, htext]
  intro m hm m' hm' _
  simp only [Option.toList_some, List.cons_append, List.nil_append,
    List.map_cons, List.map_nil, List.mem_cons, List.not_mem_nil, or_false,
    or_self] at hm hm'
  rw [hm, hm']

end Regtest

theorem published_accepted_regtest :
    ∃ response identity,
      ((Process.process Regtest.enclave).state
          Regtest.setupRun).app.attestation Regtest.nsm Regtest.nonce
        = .ok response ∧
      verifyResponse Regtest.crates SapioTee.Regtest.verifier Regtest.challenge
        response.json 0 1000 = .ok identity := by
  obtain ⟨k, l, response, hp, hresponse, haccepted⟩ :=
    published_accepted Regtest.enclave Regtest.crates SapioTee.Regtest.verifier
      Regtest.laws rfl rfl Regtest.setupRun _ Regtest.identity_setupRun 3
      Regtest.describe rfl [] 0 1000 1000 Regtest.nsm Regtest.honest
      (by decide) (by decide) Regtest.nonce Regtest.asked
      Regtest.unhexChars_nonce (by decide) (by decide)
  refine ⟨response, _, hresponse, haccepted SapioTee.Regtest.record
    SapioTee.Regtest.validateSettings_record ?_⟩
  rw [Regtest.settings_of_publication hp]
  exact SapioTee.Regtest.accepts_record

theorem accepted_governs_regtest :
    ∃ identity i k l quote early late, ∃ time : Nat,
      Regtest.machine.trace Regtest.challengeRun
        = early ++ .quoted i Regtest.challenge.nonce
            (Regtest.enclave.keys.sha256 (utf8 l.identity)).toList time quote
          :: late ∧
      Publishes early i k l ∧
      identity = (App.identityOf Regtest.enclave l.oracle
        (some l.settings)).json SapioTee.Regtest.verifier ∧
      Json.eq l.settings.json SapioTee.Regtest.record = true := by
  obtain ⟨identity, hverified⟩ := Regtest.verified_challenge
  have htrace : Regtest.machine.trace Regtest.challengeRun
      = Regtest.machine.trace Regtest.quotedRun ++
        [.verified Regtest.challenge Regtest.response 0 1000
          (.ok identity)] := by
    rw [← hverified, Regtest.challengeRun, Machine.trace_concat]
    rfl
  obtain ⟨i, k, l, quote, early, late, time, -, hpre, hpublishes, -, -, -,
    hidentity, hsettings, -⟩ :=
    accepted_governs Regtest.enclave Regtest.crates SapioTee.Regtest.verifier
      Regtest.laws
      (fun root registry _ h =>
        Process.oraclePublicRoot_symbolic root registry h)
      rfl Regtest.signedMessage_inj Regtest.challengeRun _ [] Regtest.challenge
      Regtest.response 0 1000 identity Regtest.nitro_challengeRun htrace
      Regtest.unforged_challenge Regtest.collisionFree_challenge
  refine ⟨identity, i, k, l, quote, early, late ++ [.verified
    Regtest.challenge Regtest.response 0 1000 (.ok identity)], time, ?_,
    hpublishes, hidentity, hsettings⟩
  rw [htrace, hpre, List.append_assoc, List.cons_append]

end SapioTee.Host
