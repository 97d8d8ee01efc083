import SapioTee.Lib.JsonShape
import SapioTee.Model.Initialize
import SapioTee.Proofs.Attestation
import SapioTee.Proofs.IdentityText
import SapioTee.Proofs.Publication

/-!
# What the initializer returns, and why it gives up

The client sees nothing but replies, and a reply may be old when it arrives.
What makes it safe is that a process publishes once: an identity that was
read stays the published one, whatever else the process did meanwhile.

`Genuine` is the invariant: what may be on its way back to each request, and
that the identity the client holds is the published one. A client that has
failed has lost its request, run out of time or made its failure of a reply
(`failed_cases`), and `Cause` says which replies it can make one of.
-/

namespace SapioTee

open Lib

namespace App

variable {T : Types} {E : Enclave T} {w w' : World E} {a : Act}
  {new : List (Event E)}

/-- Who has published has an identity to answer with. -/
theorem published_identity (E : Enclave T) (acts : List Act) :
    ∀ k, ((app E).state acts).handlers k = .published →
      ((app E).state acts).identity ≠ none := by
  refine (app E).run_induct_reach
    (P := fun w _ => ∀ k, w.handlers k = .published → w.identity ≠ none)
    (fun _ h => by cases h) ?_ acts
  intro acts a ih k hk
  have hmoves := step_moves ((app E).state acts) a
  have hreq := hmoves.request (sound E acts).guarded k
  have hkept : ((app E).state acts).handlers k = .published →
      (((app E).state acts).step a).1.identity ≠ none := by
    intro hbefore hnone
    exact ih k hbefore (hmoves.identity_none hnone)
  rw [show (((app E).state acts).step a).1.handlers k = .published from hk]
    at hreq
  generalize hx : ((app E).state acts).handlers k = x,
    ((app E).state acts).ready k = o,
    (((app E).state acts).step a).1.ready k = o' at hreq
  cases hreq with
  | published hi =>
      intro hnone
      cases hi.symm.trans hnone
  | _ => exact hkept hx

/-- The replies of a setup handler other than an identity. -/
inductive Refusal (E : Enclave T) : ApiError → Prop where
  | busy : Refusal E (409, "setup already in progress")
  | conflict :
      Refusal E (409, "already initialized; restart to change identity")
  | noNsm (h : E.nsm = false) :
      Refusal E (503, "Nitro provisioning unavailable")
  | kms : Refusal E (502, "attested KMS provisioning failed")
  | signer : Refusal E (503, "could not start signer")

/-- A request that ends is answered with the identity, refused, or
dropped. -/
theorem Leaves.reply {k : Nat} (h : Leaves w k a new)
    (hpublished : w.handlers k = .published → w.identity ≠ none)
    {reply : Except ApiError String} (hmem : .answered k reply ∈ new) :
    (∃ text, w.identity = some text ∧ reply = .ok text) ∨
      ∃ error, reply = .error error ∧ Refusal E error := by
  have hone : ∀ {x : Except ApiError String},
      Event.answered (E := E) k reply ∈ [.answered k x] → reply = x := by
    intro x hx
    exact (Event.answered.inj (List.mem_singleton.mp hx)).2
  have htwo : ∀ {x : Except ApiError String} {y : Event E},
      (∀ r, y ≠ .answered k r) →
      Event.answered k reply ∈ [y, .answered k x] → reply = x := by
    intro x y hy hx
    rcases List.mem_cons.mp hx with heq | hx
    · exact absurd heq.symm (hy reply)
    · exact hone hx
  cases h with
  | busy h hg => exact .inr ⟨_, hone hmem, .busy⟩
  | conflict h hi => exact .inr ⟨_, hone hmem, .conflict⟩
  | noNsm h hi hn => exact .inr ⟨_, hone hmem, .noNsm hn⟩
  | noRequest h hi hr => exact .inr ⟨_, hone hmem, .kms⟩
  | noRoot h hr => exact .inr ⟨_, hone hmem, .kms⟩
  | noInstall h hr hb =>
      exact .inr ⟨_, htwo (fun _ heq => by cases heq) hmem, .signer⟩
  | noPlace h hp => exact .inr ⟨_, hone hmem, .signer⟩
  | notBound h hr => exact .inr ⟨_, hone hmem, .signer⟩
  | gaveUp h => exact .inr ⟨_, hone hmem, .signer⟩
  | arkTaken h ha => exact .inr ⟨_, hone hmem, .signer⟩
  | identityTaken h hi => exact .inr ⟨_, hone hmem, .signer⟩
  | responded h =>
      obtain ⟨text, hi⟩ := Option.ne_none_iff_exists'.mp (hpublished h)
      refine .inl ⟨text, hi, ?_⟩
      rw [hone hmem, World.publicKey, hi]
  | droppedDeriving h => simp at hmem
  | droppedWaiting h => simp at hmem

end App

namespace Initialize

variable {T : Types} {E : App.Enclave T} {V : VerifierCrates T}
  {I : ClientCrates} {settings : Json} {w w' : World E} {a : Act}
  {acts : List Act} {new : List (App.Event E)}

/-! ## The steps -/

/-- What the client may do next. -/
inductive Turns (V : VerifierCrates T) (I : ClientCrates) (settings : Json)
    (w : World E) : Act → Client → Prop where
  | begin (h : w.client.place = .top) :
      Turns V I settings w .begin { w.client with place := .publicKey }
  | receive {status : Nat} {body : Bytes}
      (h : w.exchange = .answered status body) :
      Turns V I settings w .receive
        (w.client.receive V I settings status body)
  | lose (failure : Failure) (h : w.client.waits = true) :
      Turns V I settings w (.lose failure) (w.client.lose failure)
  | wake (h : w.client.place = .asleep) :
      Turns V I settings w .wake { w.client with place := .top }
  | expire (h : w.client.left = false) :
      Turns V I settings w .expire (w.client.expire I)

/-- What the router may answer at once to a request that was sent. -/
inductive Takes (I : ClientCrates) (settings : Json) (w : World E) :
    Act → Except App.ApiError String → Prop where
  | publicKey (h : w.client.place = .publicKey) :
      Takes I settings w .serve w.app.publicKey
  | health {identity : Json} (h : w.client.place = .health identity) :
      Takes I settings w .serve w.app.health
  | extractor {error : App.ApiError} (h : w.client.place = .setup)
      (he : I.extract settings = .error error) :
      Takes I settings w .serve (.error error)
  | shed : Takes I settings w .shed capacityReply
  | stall (h : w.client.place = .setup) :
      Takes I settings w .stall deadlineReply

/-- The exchange after a step of the process. -/
def advance (exchange : Exchange) (es : List (App.Event E)) : Exchange :=
  match exchange with
  | .running request => follow request es
  | exchange => exchange

inductive Moves (V : VerifierCrates T) (I : ClientCrates) (settings : Json)
    (w : World E) : Act → World E → List (App.Event E) → Prop where
  | still {a : Act} : Moves V I settings w a w []
  | app (a : App.Act) :
      Moves V I settings w (.app a) { w with
          app := (w.app.step a).1
          exchange := advance w.exchange (w.app.step a).2 } (w.app.step a).2
  | turn {a : Act} {c : Client} (h : Turns V I settings w a c) :
      Moves V I settings w a (w.turn c) []
  | reply {a : Act} {reply : Except App.ApiError String}
      (h : w.exchange = .sent) (ht : Takes I settings w a reply) :
      Moves V I settings w a { w with exchange := answerOf reply } []
  | setup {parsed : Settings} (h : w.exchange = .sent)
      (hp : w.client.place = .setup) (he : I.extract settings = .ok parsed) :
      Moves V I settings w .serve { w with
          app := (w.app.step (.setup parsed)).1
          exchange := follow w.app.next (w.app.step (.setup parsed)).2 }
        (w.app.step (.setup parsed)).2

theorem step_moves (w : World E) (a : Act) :
    Moves V I settings w a (w.step V I settings a).1
      (w.step V I settings a).2 := by
  cases a with
  | app a => exact .app a
  | begin =>
      simp only [World.step, World.stepBegin]
      split
      · next h => exact .turn (.begin h)
      · exact .still
  | serve =>
      simp only [World.step, World.stepServe]
      split
      · next h hp => exact .reply h (.publicKey hp)
      · next h hp => exact .reply h (.health hp)
      · next h hp =>
          simp only [World.serveSetup]
          split
          · next error he => exact .reply h (.extractor hp he)
          · next parsed he => exact .setup h hp he
      · exact .still
  | shed =>
      simp only [World.step, World.stepShed]
      split
      · next h => exact .reply h .shed
      · exact .still
  | stall =>
      simp only [World.step, World.stepStall]
      split
      · next h hp => exact .reply h (.stall hp)
      · exact .still
  | receive =>
      simp only [World.step, World.stepReceive]
      split
      · next h => exact .turn (.receive h)
      · exact .still
  | lose failure =>
      simp only [World.step, World.stepLose]
      split
      · next h => exact .turn (.lose failure h)
      · exact .still
  | wake =>
      simp only [World.step, World.stepWake]
      split
      · next h => exact .turn (.wake h)
      · exact .still
  | expire =>
      simp only [World.step, World.stepExpire]
      split
      · exact .still
      · next h => exact .turn (.expire (by simpa using h))

/-- Each step is some steps of the process. -/
theorem Moves.app_view (h : Moves V I settings w a w' new) :
    ∃ bs, (App.app E).runFrom w.app bs = (w'.app, new) := by
  have hone : ∀ a, (App.app E).runFrom w.app [a]
      = ((w.app.step a).1, (w.app.step a).2) := by
    intro a
    show ((w.app.step a).1, (w.app.step a).2 ++ []) = _
    rw [List.append_nil]
  cases h with
  | app a => exact ⟨[a], hone a⟩
  | setup h hp he => exact ⟨[_], hone _⟩
  | _ => exact ⟨[], rfl⟩

/-- The process runs as one of its own. -/
theorem exists_app_run (E : App.Enclave T) (V : VerifierCrates T)
    (I : ClientCrates) (settings : Json) (acts : List Act) :
    ∃ bs, (App.app E).state bs
        = ((initializer V I settings E).state acts).app ∧
      (App.app E).trace bs = (initializer V I settings E).trace acts := by
  have hview : (initializer V I settings E).Along (fun w a =>
      ∃ bs, (App.app E).runFrom w.app bs
        = ((w.step V I settings a).1.app,
          (w.step V I settings a).2.filterMap some)) acts := by
    intro pre a post _
    obtain ⟨bs, hbs⟩ := (step_moves ((initializer V I settings E).state pre)
      a).app_view
    exact ⟨bs, by rw [hbs, List.filterMap_some]⟩
  obtain ⟨bs, hstate, htrace⟩ :=
    (initializer V I settings E).exists_run_of_view rfl hview
  exact ⟨bs, hstate, htrace.trans List.filterMap_some⟩

/-! ## The invariant -/

/-- A setup request of a run with these actions may be refused with this. -/
inductive Refuses (E : App.Enclave T) (I : ClientCrates) (settings : Json)
    (acts : List Act) : App.ApiError → Prop where
  | handler {error : App.ApiError} (h : App.Refusal E error) :
      Refuses E I settings acts error
  | invalid {parsed : Settings} (he : I.extract settings = .ok parsed)
      (hv : parsed.validate ≠ .ok ()) :
      Refuses E I settings acts (400, "invalid setup settings")
  | extractor {error : App.ApiError} (h : I.extract settings = .error error) :
      Refuses E I settings acts error
  | capacity (h : .shed ∈ acts) :
      Refuses E I settings acts (503, "API capacity exceeded")
  | deadline : Refuses E I settings acts (408, "request deadline exceeded")

/-- The reply is the published identity. -/
def Publishes (w : World E) (reply : Except App.ApiError String) : Prop :=
  ∃ text, w.app.identity = some text ∧ reply = .ok text

/-- What may be on its way back, by what the client waits for. -/
def Offers (I : ClientCrates) (settings : Json) (acts : List Act)
    (w : World E) (reply : Except App.ApiError String) : Prop :=
  match w.client.place with
  | .publicKey => Publishes w reply ∨
      reply = .error (503, "not initialized") ∨ reply = capacityReply
  | .setup => Publishes w reply ∨
      ∃ error, reply = .error error ∧ Refuses E I settings acts error
  | .health _ => reply = .ok "ready" ∨
      reply = .error (503, "not initialized") ∨ reply = capacityReply
  | _ => False

theorem offers_cases {reply : Except App.ApiError String}
    (h : Offers I settings acts w reply) :
    (w.client.place = .publicKey ∧ (Publishes w reply ∨
      reply = .error (503, "not initialized") ∨ reply = capacityReply)) ∨
    (w.client.place = .setup ∧ (Publishes w reply ∨
      ∃ error, reply = .error error ∧ Refuses E I settings acts error)) ∨
    ∃ identity, w.client.place = .health identity ∧ (reply = .ok "ready" ∨
      reply = .error (503, "not initialized") ∨ reply = capacityReply) := by
  unfold Offers at h
  split at h
  · next hp => exact .inl ⟨hp, h⟩
  · next hp => exact .inr (.inl ⟨hp, h⟩)
  · next identity hp => exact .inr (.inr ⟨identity, hp, h⟩)
  · exact h.elim

theorem waits_cases {c : Client} (h : c.waits = true) :
    c.place = .publicKey ∨ c.place = .setup ∨
      ∃ identity, c.place = .health identity := by
  unfold Client.waits at h
  split at h
  · next hp => exact .inl hp
  · next hp => exact .inr (.inl hp)
  · next identity hp => exact .inr (.inr ⟨identity, hp⟩)
  · cases h

/-- The client has read this in the published identity. -/
def Reads (V : VerifierCrates T) (I : ClientCrates) (settings : Json)
    (w : World E) (identity : Json) : Prop :=
  ∃ text, w.app.identity = some text ∧
    validateBody V I settings (utf8 text) = .ok identity

/-- Why the client fails with a reply. -/
inductive Cause (V : VerifierCrates T) (I : ClientCrates) (settings : Json)
    (acts : List Act) (w : World E) : Error → Prop where
  | identity {text : String} {error : Error} (h : w.app.identity = some text)
      (hv : validateBody V I settings (utf8 text) = .error error) :
      Cause V I settings acts w error
  | oversize {text path : String} (h : w.app.identity = some text)
      (hv : maxResponse < (utf8 text).length) :
      Cause V I settings acts w (.message (path ++ " response exceeds 64 KiB"))
  | refused {status : Nat} {text : String}
      (h : Refuses E I settings acts (status, text))
      (hs : ¬ (status = 408 ∨ status = 409 ∨ status = 502)) :
      Cause V I settings acts w (unexpected I "/setup" status (utf8 text))
  | extractor {error : App.ApiError} {cause : Error}
      (h : I.extract settings = .error error) : Cause V I settings acts w cause

/-- A later state of the process, with what the client has read kept. -/
def Keeps (w w' : World E) : Prop :=
  ∀ text, w.app.identity = some text → w'.app.identity = some text

theorem Moves.keeps (h : Moves V I settings w a w' new) : Keeps w w' := by
  cases h with
  | app a => exact fun _ hi => (App.step_moves w.app a).identity hi
  | setup h hp he => exact fun _ hi => (App.step_moves w.app _).identity hi
  | _ => exact fun _ hi => hi

theorem Offers.mono {reply : Except App.ApiError String}
    (h : Offers I settings acts w reply) (hc : w'.client = w.client)
    (hk : Keeps w w') : Offers I settings acts w' reply := by
  have hp : Publishes w reply → Publishes w' reply := by
    rintro ⟨text, hi, hr⟩
    exact ⟨text, hk text hi, hr⟩
  unfold Offers at h ⊢
  rw [hc]
  split at h
  · exact h.imp_left hp
  · exact h.imp_left hp
  · exact h
  · exact h

theorem Reads.mono {identity : Json} (h : Reads V I settings w identity)
    (hk : Keeps w w') : Reads V I settings w' identity := by
  obtain ⟨text, hi, hv⟩ := h
  exact ⟨text, hk text hi, hv⟩

structure Genuine (V : VerifierCrates T) (I : ClientCrates) (settings : Json)
    (acts : List Act) (w : World E) : Prop where
  sent : w.exchange = .sent → w.client.waits = true
  running : ∀ k, w.exchange = .running k →
    w.client.place = .setup ∧ k < w.app.next
  answered : ∀ status body, w.exchange = .answered status body →
    ∃ reply, Offers I settings acts w reply ∧
      answerOf reply = .answered status body
  held : ∀ identity, w.client.place = .health identity ∨
    w.client.place = .returned identity → Reads V I settings w identity

theorem genuine_start : Genuine V I settings acts (World.start : World E) where
  sent := by simp [World.start]
  running := by simp [World.start]
  answered := by simp [World.start]
  held := by simp [World.start, Client.start]

/-! ### Steps of the process -/

theorem replyTo_some {k : Nat} {es : List (App.Event E)}
    {reply : Except App.ApiError String} (h : replyTo k es = some reply) :
    .answered k reply ∈ es ∨ reply = deadlineReply := by
  induction es with
  | nil => cases h
  | cons e es ih =>
      have hrest : ∀ (_ : replyTo k es = some reply),
          .answered k reply ∈ e :: es ∨ reply = deadlineReply := by
        intro hmem
        exact (ih hmem).imp_left (List.mem_cons_of_mem _)
      cases e with
      | answered j r =>
          simp only [replyTo] at h
          split at h
          · next heq =>
              injection h with h
              rw [heq, h]
              exact .inl List.mem_cons_self
          · exact hrest h
      | dropped j =>
          simp only [replyTo] at h
          split at h
          · injection h with h
            exact .inr h.symm
          · exact hrest h
      | _ => exact hrest h

theorem follow_cases (k : Nat) (es : List (App.Event E)) :
    (∃ reply, replyTo k es = some reply ∧ follow k es = answerOf reply) ∨
      follow k es = .running k := by
  unfold follow
  split
  · next reply h => exact .inl ⟨reply, h, rfl⟩
  · exact .inr rfl

theorem answerOf_eq (reply : Except App.ApiError String) :
    ∃ status body, answerOf reply = .answered status body := by
  cases reply with
  | ok text => exact ⟨_, _, rfl⟩
  | error error => exact ⟨_, _, rfl⟩

/-- The client waits for its setup request, which goes on. -/
theorem genuine_follow {app : App.World E} {client : Client}
    {es : List (App.Event E)} {k : Nat} (hp : client.place = .setup)
    (hlt : k < app.next)
    (hreply : ∀ reply, replyTo k es = some reply →
      Offers I settings acts ⟨app, client, .idle⟩ reply) :
    Genuine V I settings acts ⟨app, client, follow k es⟩ := by
  have hheld : ∀ identity, client.place = .health identity ∨
      client.place = .returned identity → False := by
    intro identity h
    rw [hp] at h
    rcases h with h | h <;> cases h
  rcases follow_cases k es with ⟨reply, hsome, heq⟩ | heq
  · rw [heq]
    obtain ⟨status, body, hanswer⟩ := answerOf_eq reply
    refine ⟨?_, ?_, ?_, ?_⟩
    · intro h
      cases hanswer.symm.trans h
    · intro j h
      cases hanswer.symm.trans h
    · intro s b h
      exact ⟨reply, hreply reply hsome, h⟩
    · intro identity h
      exact (hheld identity h).elim
  · rw [heq]
    refine ⟨?_, ?_, ?_, ?_⟩
    · intro h
      cases h
    · intro j h
      injection h with h
      subst h
      exact ⟨hp, hlt⟩
    · intro s b h
      cases h
    · intro identity h
      exact (hheld identity h).elim

theorem Genuine.app (hg : Genuine V I settings acts w) (a : App.Act)
    (hpublished : ∀ k, w.app.handlers k = .published →
      w.app.identity ≠ none) :
    Genuine V I settings acts { w with
      app := (w.app.step a).1
      exchange := advance w.exchange (w.app.step a).2 } := by
  have hmoves := App.step_moves w.app a
  have hkeeps : ∀ exchange, Keeps w ⟨(w.app.step a).1, w.client, exchange⟩ :=
    fun _ _ h => hmoves.identity h
  cases hexchange : w.exchange with
  | running k =>
      obtain ⟨hp, hlt⟩ := hg.running k hexchange
      refine genuine_follow hp (Nat.lt_of_lt_of_le hlt hmoves.next_le) ?_
      intro reply hreply
      unfold Offers
      simp only [hp]
      rcases replyTo_some hreply with hmem | rfl
      · rcases hmoves.answered_cases hmem with ⟨heq, -⟩ | hleft
        · omega
        · rcases hleft.reply (hpublished k) hmem with
            ⟨text, hi, rfl⟩ | ⟨error, rfl, hrefusal⟩
          · exact .inl ⟨text, hmoves.identity hi, rfl⟩
          · exact .inr ⟨error, rfl, .handler hrefusal⟩
      · exact .inr ⟨_, rfl, .deadline⟩
  | idle | sent | answered =>
      refine ⟨?_, ?_, ?_, ?_⟩
      · intro h
        exact hg.sent (hexchange.trans h)
      · intro k h
        cases h
      · intro status body h
        obtain ⟨reply, hoffers, hanswer⟩ :=
          hg.answered status body (hexchange.trans h)
        exact ⟨reply, hoffers.mono rfl (hkeeps _), hanswer⟩
      · intro identity h
        exact (hg.held identity h).mono (hkeeps _)

theorem stepSetup_cases (w : App.World E) (parsed : Settings) :
    (w.stepSetup parsed).1.next = w.next + 1 ∧
      ((parsed.validate ≠ .ok () ∧ (w.stepSetup parsed).2
          = [.started w.next parsed, .answered w.next
            (.error (400, "invalid setup settings"))]) ∨
        (w.stepSetup parsed).2 = [.started w.next parsed]) := by
  unfold App.World.stepSetup
  split
  · next error h =>
      refine ⟨rfl, .inl ⟨?_, rfl⟩⟩
      rw [h]
      simp
  · exact ⟨rfl, .inr rfl⟩

theorem Genuine.setup (hp : w.client.place = .setup) {parsed : Settings}
    (he : I.extract settings = .ok parsed) :
    Genuine V I settings acts { w with
      app := (w.app.step (.setup parsed)).1
      exchange := follow w.app.next (w.app.step (.setup parsed)).2 } := by
  obtain ⟨hnext, hevents⟩ := stepSetup_cases w.app parsed
  refine genuine_follow hp (by rw [App.World.step, hnext]; omega) ?_
  intro reply hreply
  unfold Offers
  simp only [hp]
  rw [App.World.step] at hreply
  rcases hevents with ⟨hv, hevents⟩ | hevents
  · have hfirst : replyTo (E := E) w.app.next [.started w.app.next parsed,
        .answered w.app.next (.error (400, "invalid setup settings"))]
        = some (.error (400, "invalid setup settings")) := if_pos rfl
    rw [hevents, hfirst] at hreply
    injection hreply with hreply
    exact .inr ⟨_, hreply.symm, .invalid he hv⟩
  · rw [hevents] at hreply
    cases hreply

/-! ### Replies and turns -/

theorem Takes.offers {reply : Except App.ApiError String}
    (h : Takes I settings w a reply) (ha : a ∈ acts)
    (hw : w.client.waits = true) : Offers I settings acts w reply := by
  have hkey : Publishes w w.app.publicKey ∨
      w.app.publicKey = .error (503, "not initialized") := by
    unfold App.World.publicKey
    split
    · next json hi => exact .inl ⟨json, hi, rfl⟩
    · exact .inr rfl
  have hhealth : w.app.health = .ok "ready" ∨
      w.app.health = .error (503, "not initialized") := by
    unfold App.World.health
    split
    · exact .inl rfl
    · exact .inr rfl
  unfold Offers
  cases h with
  | publicKey h =>
      simp only [h]
      exact hkey.imp_right .inl
  | health h =>
      simp only [h]
      exact hhealth.imp_right .inl
  | extractor h he =>
      simp only [h]
      exact .inr ⟨_, rfl, .extractor he⟩
  | shed =>
      rcases waits_cases hw with h | h | ⟨identity, h⟩
      · simp only [h]
        exact .inr (.inr trivial)
      · simp only [h]
        exact .inr ⟨_, rfl, .capacity ha⟩
      · simp only [h]
        exact .inr (.inr trivial)
  | stall h =>
      simp only [h]
      exact .inr ⟨_, rfl, .deadline⟩

theorem Genuine.reply (hg : Genuine V I settings acts w)
    {reply : Except App.ApiError String} (h : w.exchange = .sent)
    (ht : Takes I settings w a reply) (ha : a ∈ acts) :
    Genuine V I settings acts { w with exchange := answerOf reply } := by
  obtain ⟨status, body, hanswer⟩ := answerOf_eq reply
  refine ⟨?_, ?_, ?_, hg.held⟩
  · intro hsent
    cases hanswer.symm.trans hsent
  · intro k hrunning
    cases hanswer.symm.trans hrunning
  · intro s b hb
    exact ⟨reply, ht.offers ha (hg.sent h), hb⟩

/-- What the client makes of a reply: the identity it goes on with is the
published one, and there is a cause if it fails. -/
structure Kept (V : VerifierCrates T) (I : ClientCrates) (settings : Json)
    (acts : List Act) (w : World E) (c : Client) : Prop where
  held : ∀ identity, c.place = .health identity ∨
    c.place = .returned identity → Reads V I settings w identity
  failed : ∀ error, c.place = .failed error → Cause V I settings acts w error

theorem kept_failed {c : Client} {error : Error}
    (h : c.place = .failed error) (hc : Cause V I settings acts w error) :
    Kept V I settings acts w c := by
  constructor
  · intro identity hh
    rw [h] at hh
    rcases hh with hh | hh <;> cases hh
  · intro e he
    rw [h] at he
    injection he with he
    rwa [← he]

/-- The client holds nothing and has not failed. -/
theorem kept_of {c : Client}
    (h : c.place = .top ∨ c.place = .publicKey ∨ c.place = .setup ∨
      c.place = .asleep) : Kept V I settings acts w c := by
  constructor
  · intro identity hh
    rcases h with h | h | h | h <;> rw [h] at hh <;>
      rcases hh with hh | hh <;> cases hh
  · intro error hh
    rcases h with h | h | h | h <;> rw [h] at hh <;> cases hh

theorem kept_check {c : Client} {text : String}
    (h : w.app.identity = some text) :
    Kept V I settings acts w (c.check V I settings (utf8 text)) := by
  unfold Client.check
  split
  · next error hv => exact kept_failed rfl (.identity h hv)
  · next identity hv =>
      constructor
      · intro found hfound
        rcases hfound with hfound | hfound
        · injection hfound with hfound
          rw [← hfound]
          exact ⟨text, h, hv⟩
        · cases hfound
      · intro error herror
        cases herror

theorem short_text {text : String}
    (h : text = "ready" ∨ text = "not initialized" ∨
      text = "API capacity exceeded") :
    (utf8 text).length ≤ maxResponse := by
  rcases h with rfl | rfl | rfl <;> decide

theorem kept_bounded {c next : Client} {path text : String}
    (h : (utf8 text).length ≤ maxResponse ∨ w.app.identity = some text)
    (hn : Kept V I settings acts w next) :
    Kept V I settings acts w (c.bounded path (utf8 text) next) := by
  unfold Client.bounded
  split
  · exact hn
  · next hlong =>
      rcases h with h | h
      · exact absurd h hlong
      · exact kept_failed rfl (.oversize h (by omega))

theorem kept_publicKey {c : Client} {reply : Except App.ApiError String}
    {status : Nat} {body : Bytes}
    (h : Publishes w reply ∨ reply = .error (503, "not initialized") ∨
      reply = capacityReply)
    (ha : answerOf reply = .answered status body) :
    Kept V I settings acts w (c.bounded "/public-key" body
      (c.onPublicKey V I settings status body)) := by
  rcases h with ⟨text, hi, rfl⟩ | rfl | rfl
  · injection ha with hs hb
    subst hs hb
    exact kept_bounded (.inr hi) (kept_check hi)
  · injection ha with hs hb
    subst hs hb
    exact kept_bounded (.inl (short_text (.inr (.inl rfl))))
      (kept_of (.inr (.inr (.inl rfl))))
  · injection ha with hs hb
    subst hs hb
    exact kept_bounded (.inl (short_text (.inr (.inr rfl))))
      (kept_of (.inr (.inr (.inl rfl))))

/-- A refusal that is short, as all are but the extractor's. -/
theorem kept_refusal {c : Client} {status : Nat} {text : String}
    (h : Refuses E I settings acts (status, text))
    (hshort : (utf8 text).length ≤ maxResponse) (hs : status ≠ 200) :
    Kept V I settings acts w (c.bounded "/setup" (utf8 text)
      (c.onSetup V I settings status (utf8 text))) := by
  refine kept_bounded (.inl hshort) ?_
  unfold Client.onSetup
  rw [if_neg hs]
  split
  · exact kept_of (.inr (.inr (.inr rfl)))
  · next hretry => exact kept_failed rfl (.refused h hretry)

/-- Whatever the client makes of the extractor's reply. -/
theorem kept_extractor {c : Client} {status : Nat} {text : String}
    (he : I.extract settings = .error (status, text)) :
    Kept V I settings acts w (c.bounded "/setup" (utf8 text)
      (c.onSetup V I settings status (utf8 text))) := by
  have hstatus := I.extract_status he
  have hcause : ∀ error, Cause V I settings acts w error :=
    fun _ => .extractor he
  unfold Client.bounded
  split
  · unfold Client.onSetup
    rw [if_neg (by omega)]
    split
    · exact kept_of (.inr (.inr (.inr rfl)))
    · exact kept_failed rfl (hcause _)
  · exact kept_failed rfl (hcause _)

theorem kept_setup {c : Client} {reply : Except App.ApiError String}
    {status : Nat} {body : Bytes}
    (h : Publishes w reply ∨
      ∃ error, reply = .error error ∧ Refuses E I settings acts error)
    (ha : answerOf reply = .answered status body) :
    Kept V I settings acts w (c.bounded "/setup" body
      (c.onSetup V I settings status body)) := by
  rcases h with ⟨text, hi, rfl⟩ | ⟨⟨code, text⟩, rfl, hrefuses⟩
  · injection ha with hs hb
    subst hs hb
    exact kept_bounded (.inr hi) (kept_check hi)
  · injection ha with hs hb
    subst hs hb
    have hkept := @kept_refusal T E V I settings w acts c _ _ hrefuses
    cases hrefuses with
    | handler hrefusal =>
        cases hrefusal <;> exact hkept (by decide) (by decide)
    | invalid he hv => exact hkept (by decide) (by decide)
    | extractor he => exact kept_extractor he
    | capacity => exact hkept (by decide) (by decide)
    | deadline => exact hkept (by decide) (by decide)

theorem kept_health {c : Client} {identity : Json}
    {reply : Except App.ApiError String} {status : Nat} {body : Bytes}
    (hread : Reads V I settings w identity)
    (h : reply = .ok "ready" ∨ reply = .error (503, "not initialized") ∨
      reply = capacityReply)
    (ha : answerOf reply = .answered status body) :
    Kept V I settings acts w (c.bounded "/health" body
      (c.onHealth I identity status body)) := by
  rcases h with rfl | rfl | rfl
  · injection ha with hs hb
    subst hs hb
    refine kept_bounded (.inl (short_text (.inl rfl))) ⟨?_, ?_⟩
    · rintro found (hfound | hfound)
      · cases hfound
      · injection hfound with hfound
        rwa [← hfound]
    · intro error herror
      cases herror
  · injection ha with hs hb
    subst hs hb
    exact kept_bounded (.inl (short_text (.inr (.inl rfl))))
      (kept_of (.inr (.inr (.inr rfl))))
  · injection ha with hs hb
    subst hs hb
    exact kept_bounded (.inl (short_text (.inr (.inr rfl))))
      (kept_of (.inr (.inr (.inr rfl))))

theorem Genuine.received (hg : Genuine V I settings acts w) {status : Nat}
    {body : Bytes} (h : w.exchange = .answered status body) :
    Kept V I settings acts w (w.client.receive V I settings status body) := by
  obtain ⟨reply, hoffers, ha⟩ := hg.answered _ _ h
  unfold Client.receive
  rcases offers_cases hoffers with ⟨hp, hoffers⟩ | ⟨hp, hoffers⟩ |
    ⟨identity, hp, hoffers⟩
  · simp only [hp]
    exact kept_publicKey hoffers ha
  · simp only [hp]
    exact kept_setup hoffers ha
  · simp only [hp]
    exact kept_health (hg.held identity (.inl hp)) hoffers ha

/-- The identity that a turn goes on with is the published one. -/
theorem Turns.held {c : Client} (h : Turns V I settings w a c)
    (hg : Genuine V I settings acts w) {identity : Json}
    (hi : c.place = .health identity ∨ c.place = .returned identity) :
    Reads V I settings w identity := by
  cases h with
  | receive h => exact (hg.received h).held identity hi
  | begin _ | wake _ | expire _ => rcases hi with hi | hi <;> cases hi
  | lose failure _ =>
      cases failure <;> rcases hi with hi | hi <;> cases hi

theorem Genuine.turn (hg : Genuine V I settings acts w) {c : Client}
    (h : Turns V I settings w a c) : Genuine V I settings acts (w.turn c) := by
  refine ⟨?_, ?_, ?_, fun identity => h.held hg⟩
  · intro hsent
    by_contra hwaits
    have hidle : (w.turn c).exchange = .idle := if_neg hwaits
    cases hidle.symm.trans hsent
  · intro k hrunning
    unfold World.turn at hrunning
    simp only at hrunning
    split at hrunning <;> cases hrunning
  · intro status body hanswered
    unfold World.turn at hanswered
    simp only at hanswered
    split at hanswered <;> cases hanswered

theorem Moves.genuine (h : Moves V I settings w a w' new)
    (ha : a ∈ acts) (hg : Genuine V I settings acts w)
    (hpublished : ∀ k, w.app.handlers k = .published →
      w.app.identity ≠ none) : Genuine V I settings acts w' := by
  cases h with
  | still => exact hg
  | app a => exact hg.app a hpublished
  | turn h => exact hg.turn h
  | reply h ht => exact hg.reply h ht ha
  | setup h hp he => exact .setup hp he

theorem genuine (E : App.Enclave T) (V : VerifierCrates T) (I : ClientCrates)
    (settings : Json) (acts : List Act) :
    Genuine V I settings acts ((initializer V I settings E).state acts) := by
  have halong : (initializer V I settings E).Along (fun w a => a ∈ acts ∧
      ∀ k, w.app.handlers k = .published → w.app.identity ≠ none) acts := by
    intro pre a post hcut
    obtain ⟨bs, hstate, -⟩ := exists_app_run E V I settings pre
    refine ⟨?_, ?_⟩
    · rw [hcut]
      exact List.mem_append_right _ List.mem_cons_self
    · rw [← hstate]
      exact App.published_identity E bs
  refine (initializer V I settings E).run_induct_along
    (P := fun w _ => Genuine V I settings acts w) genuine_start ?_ halong
  intro w _ a ha hg
  exact (step_moves w a).genuine ha.1 hg ha.2

theorem identity_append {acts : List Act} {text : String}
    (h : ((initializer V I settings E).state acts).app.identity = some text)
    (more : List Act) :
    ((initializer V I settings E).state (acts ++ more)).app.identity
      = some text :=
  (initializer V I settings E).stable_append
    (P := fun w _ => w.app.identity = some text) h
    (fun _ b ih => (step_moves _ b).keeps text ih) more

/-! ## What is returned -/

/-- `json.loads` reads bytes that begin like an object in UTF-8 as UTF-8. -/
def DecodesObjects (I : ClientCrates) : Prop :=
  ∀ text : String, [JsonText.lbrace, '"'] <+: text.toList →
    I.decode (utf8 text) = some text

theorem identity_begins (laws : WireLaws E V) (l : App.Install E) :
    [JsonText.lbrace, '"'] <+: l.identity.toList := by
  rw [laws.toJson_text l.identity_eq, String.toList_ofList]
  exact ⟨_, rfl⟩

theorem jsonValue_ok {text : String} {value : Json}
    (h : jsonValue V text = .ok value) : V.loads text = some value := by
  unfold jsonValue at h
  split at h
  · cases h
  · next found hload =>
      simp only at h
      split at h
      · obtain ⟨_, -, h⟩ := bind_ok h
        injection h with h
        rw [hload, h]
      · cases h

theorem validateIdentity_ok {text : String} {record identity : Json}
    (h : validateIdentity V text record = .ok identity) :
    V.loads text = some identity ∧
      ∃ members mode published, identity = .obj members ∧
        Json.get members "mode" = some mode ∧ isStr mode "nitro" = true ∧
        Json.get members "settings" = some published ∧
        Json.eq published record = true := by
  unfold validateIdentity at h
  obtain ⟨value, hvalue, h⟩ := bind_ok h
  obtain ⟨members, hmembers, h⟩ := bind_ok h
  obtain ⟨protocol, -, h⟩ := bind_ok h
  obtain ⟨_, -, h⟩ := bind_ok h
  obtain ⟨mode, hmode, h⟩ := bind_ok h
  obtain ⟨_, hnitro, h⟩ := bind_ok h
  obtain ⟨published, hpublished, h⟩ := bind_ok h
  obtain ⟨_, hsettings, h⟩ := bind_ok h
  obtain ⟨xpub, -, h⟩ := bind_ok h
  obtain ⟨_, -, h⟩ := bind_ok h
  obtain ⟨signing, -, h⟩ := bind_ok h
  obtain ⟨_, -, h⟩ := bind_ok h
  injection h with h
  subst h
  exact ⟨jsonValue_ok hvalue, members, mode, published, (dict_ok hmembers).1,
    item_ok hmode, require_ok hnitro, item_ok hpublished,
    require_ok hsettings⟩

/-- An identity that an enclave has published, taken by the client. -/
theorem validateIdentity_published (laws : WireLaws E V) {l : App.Install E}
    {record identity : Json}
    (h : validateIdentity V l.identity record = .ok identity) :
    identity = (App.identityOf E l.oracle (some l.settings)).json V ∧
      E.nsm = true ∧ Json.eq l.settings.json record = true := by
  obtain ⟨hload, members, mode, published, rfl, hmode, hnitro, hpublished,
    hsettings⟩ := validateIdentity_ok h
  rw [Verifier.loads_identity laws] at hload
  have hmembers := Json.obj.inj (Option.some.inj hload)
  rw [← hmembers] at hmode hpublished
  have hmode' : some (Json.str (if E.nsm then "nitro" else "local-dev"))
      = some mode := hmode
  have hpublished' : some l.settings.json = some published := hpublished
  rw [← Option.some.inj hmode'] at hnitro
  refine ⟨(Option.some.inj hload).symm, ?_, ?_⟩
  · by_contra hnsm
    rw [if_neg hnsm] at hnitro
    exact absurd hnitro (by decide)
  · rw [Option.some.inj hpublished']
    exact hsettings

/-- The record the client was started with says what the process was set up
with. -/
def Matches (record : Json) (settings : Settings) : Prop :=
  ∃ members, record = .obj members ∧
    Json.get members "key_id" = some (.str settings.keyId) ∧
    Json.get members "blockhash"
      = some (.str (blockHashToString settings.blockhash)) ∧
    Json.get members "network" = some (.str settings.network.name)

theorem matches_of_eq {record : Json} {settings : Settings}
    (hrecord : validateSettings record = .ok ())
    (h : Json.eq settings.json record = true) : Matches record settings := by
  unfold validateSettings at hrecord
  obtain ⟨members, hmembers, -⟩ := bind_ok hrecord
  obtain ⟨rfl, -⟩ := dict_ok hmembers
  obtain ⟨hall, -⟩ := validateSettings_ok hrecord
  have hget : ∀ name text, Json.get [("key_id", .str settings.keyId),
      ("blockhash", .str (blockHashToString settings.blockhash)),
      ("network", .str settings.network.name)] name = some (.str text) →
      Json.get members name = some (.str text) := by
    intro name text hname
    obtain ⟨value, hvalue, heq⟩ := Json.eq_obj_get h hname
    obtain ⟨s, rfl⟩ := exists_str hall hvalue
    rw [hvalue, Json.eq_str_right heq]
  exact ⟨members, rfl, hget _ _ rfl, hget _ _ rfl, hget _ _ rfl⟩

theorem Reads.published (laws : WireLaws E V) (hdecode : DecodesObjects I)
    {record identity : Json} (h : Reads V I record w identity)
    {l : App.Install E} (hl : w.app.identity = some l.identity) :
    validateIdentity V l.identity record = .ok identity := by
  obtain ⟨text, htext, hv⟩ := h
  rw [hl] at htext
  rw [← Option.some.inj htext, validateBody,
    hdecode _ (identity_begins laws l)] at hv
  exact hv

/-- What `initialize` returns is the identity the process has published and
keeps, and the process was set up with the settings of the record: their root
came from KMS's answer for them. This is so whatever other clients ask for
meanwhile, and however often requests fail and are repeated. -/
theorem returns_published (E : App.Enclave T) (V : VerifierCrates T)
    (I : ClientCrates) (laws : WireLaws E V) (hdecode : DecodesObjects I)
    (record : Json) (hrecord : validateSettings record = .ok ())
    (acts : List Act) (identity : Json)
    (h : ((initializer V I record E).state acts).client.place
      = .returned identity) :
    E.nsm = true ∧ ∃ k l,
      App.Publication ((initializer V I record E).state acts).app
        ((initializer V I record E).trace acts) k l ∧
      identity = (App.identityOf E l.oracle (some l.settings)).json V ∧
      Matches record l.settings := by
  have hread := (genuine E V I record acts).held identity (.inr h)
  obtain ⟨bs, hstate, htrace⟩ := exists_app_run E V I record acts
  have hsome : ((App.app E).state bs).identity ≠ none := by
    obtain ⟨text, htext, -⟩ := hread
    rw [hstate, htext]
    simp
  obtain ⟨k, l, hp⟩ := (App.sound E bs).told.publication hsome
  rw [hstate, htrace] at hp
  obtain ⟨hidentity, hnsm, hsettings⟩ := validateIdentity_published laws
    (hread.published laws hdecode hp.identity)
  exact ⟨hnsm, k, l, hp, hidentity, matches_of_eq hrecord hsettings⟩

/-! ## Why it gives up -/

/-- How a client comes to have failed: it had already, or it has with this
action. -/
theorem Moves.failed (h : Moves V I settings w a w' new) {error : Error}
    (hfailed : w'.client.place = .failed error) :
    w.client.place = .failed error ∨
    (a = .expire ∧ ∃ status, error = .message ("timed out after " ++
      I.timeout ++ " seconds: " ++ status)) ∨
    (∃ failure, a = .lose failure ∧
      (w.client.lose failure).place = .failed error) ∨
    ∃ status body, w.exchange = .answered status body ∧
      (w.client.receive V I settings status body).place = .failed error := by
  cases h with
  | still | app _ | reply _ _ | setup _ _ _ => exact .inl hfailed
  | turn hturn =>
      cases hturn with
      | begin _ | wake _ => cases hfailed
      | receive h => exact .inr (.inr (.inr ⟨_, _, h, hfailed⟩))
      | lose failure _ => exact .inr (.inr (.inl ⟨failure, rfl, hfailed⟩))
      | expire _ =>
          injection hfailed with hfailed
          exact .inr (.inl ⟨rfl, _, hfailed.symm⟩)

/-- Over a run: time ran out, a request was lost in a way nothing catches, or
a reply was the cause, when it came. -/
theorem failed_cases {acts : List Act} {error : Error}
    (h : ((initializer V I settings E).state acts).client.place
      = .failed error) :
    (.expire ∈ acts ∧ ∃ status, error = .message ("timed out after " ++
      I.timeout ++ " seconds: " ++ status)) ∨
    (∃ failure, .lose failure ∈ acts ∧
      ∃ c : Client, (c.lose failure).place = .failed error) ∨
    ∃ pre post, acts = pre ++ post ∧
      Cause V I settings pre ((initializer V I settings E).state pre)
        error := by
  induction acts using List.reverseRecOn with
  | nil => cases h
  | append_singleton acts a ih =>
      rw [Machine.state_concat] at h
      rcases (step_moves _ a).failed h with hold | ⟨rfl, hstatus⟩ |
        ⟨failure, rfl, hlost⟩ | ⟨status, body, hanswered, hreceived⟩
      · rcases ih hold with ⟨hmem, hstatus⟩ | ⟨failure, hmem, hlost⟩ |
          ⟨pre, post, rfl, hcause⟩
        · exact .inl ⟨List.mem_append_left _ hmem, hstatus⟩
        · exact .inr (.inl ⟨failure, List.mem_append_left _ hmem, hlost⟩)
        · exact .inr (.inr ⟨pre, post ++ [a], List.append_assoc _ _ _, hcause⟩)
      · exact .inl ⟨List.mem_append_right _ (List.mem_singleton.mpr rfl),
          hstatus⟩
      · exact .inr (.inl ⟨failure,
          List.mem_append_right _ (List.mem_singleton.mpr rfl), _, hlost⟩)
      · exact .inr (.inr ⟨acts, [a], rfl,
          ((genuine E V I settings acts).received hanswered).failed error
            hreceived⟩)

section

variable {record : Json}

/-- The client takes what a process publishes that was set up with its
record. -/
theorem validateBody_published (laws : WireLaws E V)
    (hdecode : DecodesObjects I) (hnsm : E.nsm = true)
    (hrecord : validateSettings record = .ok ()) {l : App.Install E}
    (hl : Settings.deserialize record = some l.settings) :
    validateBody V I record (utf8 l.identity)
      = .ok ((App.identityOf E l.oracle (some l.settings)).json V) := by
  obtain ⟨members, rfl, hagreed⟩ := exists_agreed hrecord hl
  have hread := Verifier.loads_identity laws l
  rw [validateBody, hdecode _ (identity_begins laws l)]
  rw [identityOf_json V hnsm] at hread ⊢
  apply validateIdentity_members _ hagreed.eq_record
    (nonblankStr_rootText V l.oracle)
  rw [jsonValue, hread]
  rfl

/-- What the process has published, it has published for these settings. -/
theorem exists_publication {settings : Settings} {acts : List Act}
    (honly : ∀ k other,
      .started k other ∈ (initializer V I record E).trace acts →
      other = settings)
    {text : String}
    (h : ((initializer V I record E).state acts).app.identity = some text) :
    ∃ k l, App.Publication ((initializer V I record E).state acts).app
        ((initializer V I record E).trace acts) k l ∧
      l.identity = text ∧ l.settings = settings := by
  obtain ⟨bs, hstate, htrace⟩ := exists_app_run E V I record acts
  have hsome : ((App.app E).state bs).identity ≠ none := by
    rw [hstate, h]
    simp
  obtain ⟨k, l, hp⟩ := (App.sound E bs).told.publication hsome
  rw [hstate, htrace] at hp
  refine ⟨k, l, hp, ?_, honly k _ hp.started⟩
  exact Option.some.inj (hp.identity.symm.trans h)

end

/-- The reasons that remain when every party accepts the record: the loop was
stopped, a request of the run was lost in a way it does not wait out, or
`/setup` was answered 503, for a request that was shed or a signer that could
not be started. -/
inductive Excuse (I : ClientCrates) (acts : List Act) : Error → Prop where
  | expired {status : String} (h : .expire ∈ acts) : Excuse I acts
      (.message ("timed out after " ++ I.timeout ++ " seconds: " ++ status))
  | tls {reason : String} (h : .lose (.tls reason) ∈ acts) :
      Excuse I acts (.message ("TLS failure: " ++ reason))
  | connection {reason : String} (h : .lose (.connection reason) ∈ acts) :
      Excuse I acts (.message ("HTTP connection failed: " ++ reason))
  | transport {error : String} (h : .lose (.other error) ∈ acts) :
      Excuse I acts (.upstream error)
  | capacity (h : .shed ∈ acts) : Excuse I acts
      (unexpected I "/setup" 503 (utf8 "API capacity exceeded"))
  | signer : Excuse I acts
      (unexpected I "/setup" 503 (utf8 "could not start signer"))

theorem lose_failed {acts : List Act} {c : Client} {failure : Failure}
    {error : Error} (hmem : .lose failure ∈ acts)
    (h : (c.lose failure).place = .failed error) : Excuse I acts error := by
  cases failure with
  | tls reason =>
      injection h with h
      exact h ▸ .tls hmem
  | connection reason =>
      injection h with h
      exact h ▸ .connection hmem
  | other error =>
      injection h with h
      exact h ▸ .transport hmem
  | waiting _ => cases h
  | broken _ => cases h

/-- With a record that the client and the enclave both take, and every setup
being for it, what the process publishes fits and validates, and the client
does not fail because of what the process answers, except where the process
has no room for a request or could not start its signer: a slow KMS, a failing
one, a setup that is under way or was dropped at its deadline are all waited
out. -/
theorem fails_excused (E : App.Enclave T) (V : VerifierCrates T)
    (I : ClientCrates) (laws : WireLaws E V) (hdecode : DecodesObjects I)
    (hnsm : E.nsm = true) (record : Json)
    (hrecord : validateSettings record = .ok ()) (settings : Settings)
    (haccepts : SetupAccepts record settings)
    (hextract : I.extract record = .ok settings) (acts : List Act)
    (honly : ∀ k other,
      .started k other ∈ (initializer V I record E).trace acts →
      other = settings) :
    (∀ text,
      ((initializer V I record E).state acts).app.identity = some text →
      (utf8 text).length ≤ maxResponse ∧
        ∃ identity, validateBody V I record (utf8 text) = .ok identity) ∧
    ∀ error, ((initializer V I record E).state acts).client.place
      = .failed error → Excuse I acts error := by
  have hpublished : ∀ text,
      ((initializer V I record E).state acts).app.identity = some text →
      (utf8 text).length ≤ maxResponse ∧
        ∃ identity, validateBody V I record (utf8 text) = .ok identity := by
    intro text htext
    obtain ⟨k, l, -, rfl, hl⟩ := exists_publication honly htext
    exact ⟨length_identity laws l (hl ▸ haccepts.2), _,
      validateBody_published laws hdecode hnsm hrecord
        (haccepts.1.trans (congrArg some hl.symm))⟩
  refine ⟨hpublished, ?_⟩
  intro error h
  rcases failed_cases h with ⟨hmem, status, rfl⟩ | ⟨failure, hmem, c, hlost⟩ |
    ⟨pre, post, rfl, hcause⟩
  · exact .expired hmem
  · exact lose_failed hmem hlost
  · cases hcause with
    | identity htext hv =>
        obtain ⟨-, identity, hok⟩ :=
          hpublished _ (identity_append htext post)
        cases hok.symm.trans hv
    | oversize htext hv =>
        obtain ⟨hshort, -⟩ := hpublished _ (identity_append htext post)
        exact absurd hv (Nat.not_lt.mpr hshort)
    | extractor he => cases hextract.symm.trans he
    | refused hrefuses hs =>
        cases hrefuses with
        | handler hrefusal =>
            cases hrefusal with
            | busy => exact absurd (.inr (.inl rfl)) hs
            | conflict => exact absurd (.inr (.inl rfl)) hs
            | noNsm hn => cases hnsm.symm.trans hn
            | kms => exact absurd (.inr (.inr rfl)) hs
            | signer => exact .signer
        | invalid he hv =>
            injection hextract.symm.trans he with hparsed
            exact absurd (hparsed ▸ haccepts.2) hv
        | extractor he => cases hextract.symm.trans he
        | capacity hshed => exact .capacity (List.mem_append_left _ hshed)
        | deadline => exact absurd (.inl rfl) hs

/-! ## Once published -/

/-- No request of the client is shed, lost or late. -/
def Fair : Act → Prop
  | .app _ | .begin | .serve | .receive | .wake => True
  | _ => False

/-- The steps of a round that finds the identity. -/
def round : List Act := [.wake, .begin, .serve, .receive, .serve, .receive]

/-- How far a round has come, by the steps it still needs. -/
inductive At (text : String) (identity : Json) (w : World E) :
    List Act → Prop where
  | asleep (h : w.client.place = .asleep) : At text identity w round
  | top (h : w.client.place = .top) :
      At text identity w [.begin, .serve, .receive, .serve, .receive]
  | asking (h : w.client.place = .publicKey) (hs : w.exchange = .sent) :
      At text identity w [.serve, .receive, .serve, .receive]
  | told (h : w.client.place = .publicKey)
      (hs : w.exchange = .answered 200 (utf8 text)) :
      At text identity w [.receive, .serve, .receive]
  | checking (h : w.client.place = .health identity)
      (hs : w.exchange = .sent) : At text identity w [.serve, .receive]
  | healthy (h : w.client.place = .health identity)
      (hs : w.exchange = .answered 200 (utf8 "ready")) :
      At text identity w [.receive]
  | returned (h : w.client.place = .returned identity) :
      At text identity w []

section

variable {record identity : Json} {text : String} {rest : List Act}

theorem At.app (h : At text identity w rest) (a : App.Act) :
    At text identity (w.stepApp a).1 rest := by
  cases h with
  | asleep h => exact .asleep h
  | top h => exact .top h
  | asking h hs => exact .asking h (by simp [World.stepApp, hs])
  | told h hs => exact .told h (by simp [World.stepApp, hs])
  | checking h hs => exact .checking h (by simp [World.stepApp, hs])
  | healthy h hs => exact .healthy h (by simp [World.stepApp, hs])
  | returned h => exact .returned h

/-- The next step of the round. -/
theorem At.next {a : Act} (h : At text identity w (a :: rest))
    (hi : w.app.identity = some text)
    (hshort : (utf8 text).length ≤ maxResponse)
    (hv : validateBody V I record (utf8 text) = .ok identity) :
    At text identity (w.step V I record a).1 rest := by
  have hready : (utf8 "ready").length ≤ maxResponse := by decide
  cases h with
  | asleep h =>
      simp only [World.step, World.stepWake, h]
      exact .top rfl
  | top h =>
      simp only [World.step, World.stepBegin, h]
      exact .asking rfl rfl
  | asking h hs =>
      simp only [World.step, World.stepServe, h, hs, App.World.publicKey, hi]
      exact .told h rfl
  | told h hs =>
      have hreceived : w.client.receive V I record 200 (utf8 text)
          = { w.client with place := .health identity } := by
        simp [Client.receive, h, Client.bounded, hshort, Client.onPublicKey,
          Client.check, hv]
      simp only [World.step, World.stepReceive, hs, hreceived]
      exact .checking rfl rfl
  | checking h hs =>
      simp only [World.step, World.stepServe, h, hs, App.World.health, hi]
      exact .healthy h rfl
  | healthy h hs =>
      have hreceived : w.client.receive V I record 200 (utf8 "ready")
          = { w.client with place := .returned identity } := by
        simp only [Client.receive, h, Client.bounded, hready, if_true,
          Client.onHealth]
      simp only [World.step, World.stepReceive, hs, hreceived]
      exact .returned rfl

theorem At.begin (h : At text identity w rest)
    (hnot : ∀ more, rest ≠ .begin :: more) :
    At text identity w.stepBegin rest := by
  unfold World.stepBegin
  split
  · next htop => cases h <;> simp_all
  · exact h

theorem At.wake (h : At text identity w rest)
    (hnot : ∀ more, rest ≠ .wake :: more) :
    At text identity w.stepWake rest := by
  unfold World.stepWake
  split
  · next hasleep => cases h <;> simp_all [round]
  · exact h

theorem At.serve (h : At text identity w rest)
    (hnot : ∀ more, rest ≠ .serve :: more) :
    At text identity (w.stepServe I record).1 rest := by
  unfold World.stepServe
  split
  · next hsent hp => cases h <;> simp_all
  · next hsent hp => cases h <;> simp_all
  · next hsent hp => cases h <;> simp_all
  · exact h

/-- A client that waits for nothing is not moved by a reply. -/
theorem place_stepReceive {place : Place} (h : w.client.place = place)
    (hwaits : w.client.waits = false) :
    (w.stepReceive V I record).client.place = place := by
  unfold World.stepReceive
  split
  · show (w.client.receive V I record _ _).place = place
    unfold Client.receive
    split
    · next hp => simp [Client.waits, hp] at hwaits
    · next hp => simp [Client.waits, hp] at hwaits
    · next hp => simp [Client.waits, hp] at hwaits
    · exact h
  · exact h

theorem At.receive (h : At text identity w rest)
    (hnot : ∀ more, rest ≠ .receive :: more) :
    At text identity (w.stepReceive V I record) rest := by
  cases h with
  | asleep h => exact .asleep (place_stepReceive h (by simp [Client.waits, h]))
  | top h => exact .top (place_stepReceive h (by simp [Client.waits, h]))
  | asking h hs =>
      simp only [World.stepReceive, hs]
      exact .asking h hs
  | checking h hs =>
      simp only [World.stepReceive, hs]
      exact .checking h hs
  | told h hs => exact absurd rfl (hnot _)
  | healthy h hs => exact absurd rfl (hnot _)
  | returned h =>
      exact .returned (place_stepReceive h (by simp [Client.waits, h]))

/-- Any other fair step leaves the round where it is. -/
theorem At.stay {a : Act} (h : At text identity w rest) (ha : Fair a)
    (hnot : ∀ more, rest ≠ a :: more) :
    At text identity (w.step V I record a).1 rest := by
  cases a with
  | app a => exact h.app a
  | begin => exact h.begin hnot
  | serve => exact h.serve hnot
  | receive => exact h.receive hnot
  | wake => exact h.wake hnot
  | shed => cases ha
  | stall => cases ha
  | lose failure => cases ha
  | expire => cases ha

/-- A run that takes the steps still needed, among other fair ones, ends the
round. -/
theorem At.run (more : List Act) (h : At text identity w rest)
    (hi : w.app.identity = some text)
    (hshort : (utf8 text).length ≤ maxResponse)
    (hv : validateBody V I record (utf8 text) = .ok identity)
    (hfair : ∀ a ∈ more, Fair a) (hsteps : rest.Sublist more) :
    ((initializer V I record E).runFrom w more).1.client.place
      = .returned identity := by
  induction more generalizing w rest with
  | nil =>
      rw [List.sublist_nil] at hsteps
      subst hsteps
      cases h with
      | returned h => exact h
  | cons a more ih =>
      have hkept : (w.step V I record a).1.app.identity = some text :=
        (step_moves w a).keeps text hi
      have hrest := fun b hb => hfair b (List.mem_cons_of_mem a hb)
      by_cases hhead : ∃ tail, rest = a :: tail
      · obtain ⟨tail, rfl⟩ := hhead
        refine ih (h.next hi hshort hv) hkept hrest ?_
        exact List.cons_sublist_cons.mp hsteps
      · refine ih (h.stay (hfair a List.mem_cons_self)
          (fun tail htail => hhead ⟨tail, htail⟩)) hkept hrest ?_
        cases hsteps with
        | cons _ hsteps => exact hsteps
        | cons_cons _ hsteps => exact absurd ⟨_, rfl⟩ hhead

end

/-- Once the process has published for the record, the client returns that
identity with its next round: whatever else the process does between the
steps of the round, as long as none of its three requests is shed, lost or
late. -/
theorem round_returns (E : App.Enclave T) (V : VerifierCrates T)
    (I : ClientCrates) (laws : WireLaws E V) (hdecode : DecodesObjects I)
    (hnsm : E.nsm = true) (record : Json)
    (hrecord : validateSettings record = .ok ()) (acts : List Act) (k : Nat)
    (l : App.Install E)
    (hp : App.Publication ((initializer V I record E).state acts).app
      ((initializer V I record E).trace acts) k l)
    (haccepts : SetupAccepts record l.settings)
    (hplace : ((initializer V I record E).state acts).client.place = .asleep ∨
      ((initializer V I record E).state acts).client.place = .top)
    (more : List Act) (hfair : ∀ a ∈ more, Fair a)
    (hround : round.Sublist more) :
    ((initializer V I record E).state (acts ++ more)).client.place
      = .returned ((App.identityOf E l.oracle (some l.settings)).json V) := by
  have hshort : (utf8 l.identity).length ≤ maxResponse :=
    length_identity laws l haccepts.2
  have hv : validateBody V I record (utf8 l.identity) = _ :=
    validateBody_published laws hdecode hnsm hrecord haccepts.1
  rw [Machine.state_append]
  rcases hplace with hasleep | htop
  · exact (At.asleep hasleep).run more hp.identity hshort hv hfair hround
  · refine (At.top htop).run more hp.identity hshort hv hfair ?_
    exact (List.sublist_cons_self Act.wake _).trans hround

/-! ## A setup on regtest -/

namespace Regtest

def extract (record : Json) : Except App.ApiError Settings :=
  match Settings.deserialize record with
  | some settings => .ok settings
  | none => .error (422, "Failed to deserialize the JSON body")

theorem extract_status {record : Json} {status : Nat} {text : String}
    (h : extract record = .error (status, text)) : 400 ≤ status := by
  unfold extract at h
  split at h
  · cases h
  · injection h with h
    injection h with h _
    omega

/-- UTF-8 throughout; what is replaced is all but ASCII. -/
def crates : ClientCrates where
  decode bytes := String.fromUTF8? ⟨bytes.toArray⟩
  replaced bytes := String.ofList (bytes.map fun b =>
    if b < 128 then Char.ofNat b.toNat else Char.ofNat 0xfffd)
  extract := extract
  extract_status := extract_status
  timeout := "120"

theorem decodes : DecodesObjects crates := by
  intro text _
  have hbytes : ByteArray.mk (utf8 text).toArray = text.toByteArray := by
    rw [utf8, Array.toArray_toList]
  show String.fromUTF8? ⟨(utf8 text).toArray⟩ = some text
  rw [hbytes, String.fromUTF8?, dif_pos text.isValidUTF8]
  rfl

theorem extract_record :
    crates.extract SapioTee.Regtest.record = .ok Symbolic.settings := by
  show extract SapioTee.Regtest.record = _
  rw [extract, SapioTee.Regtest.accepts_record.1]

/-- The machine over all this. -/
abbrev machine :=
  initializer SapioTee.Regtest.verifier crates SapioTee.Regtest.record
    SapioTee.Regtest.enclave

/-- Another client sets the process up. -/
def setupRun : List Act := Symbolic.publishedRun.map .app

theorem identity_setupRun :
    (machine.state setupRun).app.identity = some SapioTee.Regtest.text := by
  rfl

theorem place_setupRun : (machine.state setupRun).client.place = .top := by
  rfl

theorem only_setupRun (k : Nat) (other : Settings)
    (h : .started k other ∈ machine.trace setupRun) :
    other = Symbolic.settings := by
  have hstarted : App.startedSettings (machine.trace setupRun)
      = [Symbolic.settings] := by rfl
  have hmem := App.mem_startedSettings h
  rw [hstarted] at hmem
  exact List.mem_singleton.mp hmem

theorem fair_round : ∀ a ∈ round, Fair a := by
  intro a ha
  simp only [round, List.mem_cons, List.not_mem_nil, or_false] at ha
  rcases ha with rfl | rfl | rfl | rfl | rfl | rfl <;> trivial

/-- Neither of two requests finds room. -/
def shedRun : List Act := [.begin, .shed, .receive, .shed, .receive]

/-- What the client makes of the second. -/
def shedError : Error :=
  unexpected crates "/setup" 503 (utf8 "API capacity exceeded")

theorem place_shedRun :
    (machine.state shedRun).client.place = .failed shedError := by
  rfl

theorem trace_shedRun : machine.trace shedRun = [] := by
  rfl

theorem place_roundRun : ∃ identity,
    (machine.state (setupRun ++ round)).client.place = .returned identity := by
  have honly := only_setupRun
  have hidentity := identity_setupRun
  have hplace := place_setupRun
  unfold machine at honly hidentity hplace ⊢
  obtain ⟨k, l, hp, htext, hl⟩ := exists_publication honly hidentity
  have hv := validateBody_published SapioTee.Regtest.laws decodes rfl
    SapioTee.Regtest.validateSettings_record
    (SapioTee.Regtest.accepts_record.1.trans (congrArg some hl.symm))
  have hshort : (utf8 l.identity).length ≤ maxResponse :=
    length_identity SapioTee.Regtest.laws l
      (hl ▸ SapioTee.Regtest.accepts_record.2)
  rw [← htext] at hidentity
  refine ⟨(App.identityOf SapioTee.Regtest.enclave l.oracle
    (some l.settings)).json SapioTee.Regtest.verifier, ?_⟩
  rw [Machine.state_append]
  exact (At.top hplace).run round hidentity hshort hv fair_round
    (List.sublist_cons_self _ _)

end Regtest

theorem returns_published_regtest :
    ∃ identity k l,
      (Regtest.machine.state (Regtest.setupRun ++ round)).client.place
        = .returned identity ∧
      App.Publication
        (Regtest.machine.state (Regtest.setupRun ++ round)).app
        (Regtest.machine.trace (Regtest.setupRun ++ round)) k l ∧
      Matches SapioTee.Regtest.record l.settings := by
  obtain ⟨identity, hplace⟩ := Regtest.place_roundRun
  unfold Regtest.machine at hplace ⊢
  obtain ⟨-, k, l, hp, -, hmatches⟩ :=
    returns_published SapioTee.Regtest.enclave SapioTee.Regtest.verifier
      Regtest.crates SapioTee.Regtest.laws Regtest.decodes
      SapioTee.Regtest.record SapioTee.Regtest.validateSettings_record
      (Regtest.setupRun ++ round) identity hplace
  exact ⟨identity, k, l, hplace, hp, hmatches⟩

theorem fails_excused_regtest :
    Excuse Regtest.crates Regtest.shedRun Regtest.shedError := by
  have hplace := Regtest.place_shedRun
  have htrace := Regtest.trace_shedRun
  unfold Regtest.machine at hplace htrace
  refine (fails_excused SapioTee.Regtest.enclave SapioTee.Regtest.verifier
    Regtest.crates SapioTee.Regtest.laws Regtest.decodes rfl
    SapioTee.Regtest.record SapioTee.Regtest.validateSettings_record
    Symbolic.settings SapioTee.Regtest.accepts_record Regtest.extract_record
    Regtest.shedRun ?_).2 Regtest.shedError hplace
  intro k other h
  rw [htrace] at h
  cases h

theorem round_returns_regtest :
    ∃ k l, App.Publication (Regtest.machine.state Regtest.setupRun).app
        (Regtest.machine.trace Regtest.setupRun) k l ∧
      (Regtest.machine.state (Regtest.setupRun ++ round)).client.place
        = .returned ((App.identityOf SapioTee.Regtest.enclave l.oracle
          (some l.settings)).json SapioTee.Regtest.verifier) := by
  have honly := Regtest.only_setupRun
  have hidentity := Regtest.identity_setupRun
  have hplace := Regtest.place_setupRun
  unfold Regtest.machine at honly hidentity hplace ⊢
  obtain ⟨k, l, hp, -, hl⟩ := exists_publication honly hidentity
  refine ⟨k, l, hp, round_returns SapioTee.Regtest.enclave
    SapioTee.Regtest.verifier Regtest.crates SapioTee.Regtest.laws
    Regtest.decodes rfl SapioTee.Regtest.record
    SapioTee.Regtest.validateSettings_record Regtest.setupRun k l hp ?_
    (.inr hplace) round Regtest.fair_round (List.Sublist.refl round)⟩
  rw [hl]
  exact SapioTee.Regtest.accepts_record

end Initialize

end SapioTee
