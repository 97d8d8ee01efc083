import SapioTee.Proofs.Envelope
import SapioTee.Proofs.SignerSteps

/-!
# What the history says about the map

The map, the entries that calls hold and the events of the run are three
views of one thing. Every entry in the map, and every entry some call took
out of it, was put there by a `prepared` event of the run; and a `prepared`
event is emitted only by a call whose request passed every check of
`prepare`, at a clock reading no later than the clock.

`Admitted` reads those checks back: it is what `prepareAuthorize` having
succeeded means, in terms of the request alone.
-/

namespace SapioTee

open Lib

section

variable {T : Types}

/-! ## Reading the checks back -/

/-- What was decided about the action itself: a spend was evaluated over the
transaction the intent signs, an ownership proof is the one the intent
signs and the policy, if there is one, accepted it. -/
def Approved (C : Crates T) (self : ArkSigner T) (key : ProgramKey T)
    (grant : Grant T) (policy : Option (NativePolicy T)) :
    SigningAction T → Prop
  | .spend spend => ∃ input, C.signingInput spend key = .ok input ∧
      C.sighash input = .ok grant.intent.message ∧
      authorize C self.evaluators grant.program input spend.witness
        grant.intent.message = .ok ()
  | .ownership ownership =>
      C.ownershipMessage ownership key = .ok grant.intent.message ∧
      ∀ p, policy = some p → p.enforce ownership.proof = .ok ()

/-- What the checks of `prepare` established of a request they let through
with `grant`. -/
structure Admitted (C : Crates T) (ark : ArkSigner T)
    (request : PrepareRequest T) (grant : Grant T) : Prop where
  protocol : request.protocol = signingProtocol
  root : request.key.root = ark.publicRoot
  intent : C.intent request.action request.key = .ok grant.intent
  userNonce : ∃ parsed, C.parseNonce request.userNonce = .ok parsed ∧
    C.memberNonceFromBytes grant.intent request.key.userPubkey
      (C.serializeNonce parsed) = .ok grant.userNonce
  program : C.programInstance request.key.program.evaluator
    request.key.program.program request.key.program.parameters
      = .ok grant.program
  identity : C.instanceId grant.program = C.programId request.key.program
  member : ∃ derived, C.derivePublicKey grant.program request.key.root
      = .ok derived ∧
    C.evenPublicKey derived = getElem grant.intent.members 1 Nat.one_lt_two
  /-- No envelope, or one that parsed over an inline program. -/
  envelope : ¬ NativePolicy.magic <+: request.key.program.parameters ∨
    (∃ policy, NativePolicy.parse C request.key.program.parameters
        = .ok (some policy)) ∧
      (C.inlineWasmVersion request.key.program.evaluator).isSome
  action : ∃ policy, NativePolicy.parse C request.key.program.parameters
      = .ok policy ∧ Approved C ark request.key grant policy request.action

variable {C : Crates T} {self : ArkSigner T}

theorem programInstance_ok {evaluator : Hash} {program parameters : Bytes}
    {p : ProgramInstance}
    (h : C.programInstance evaluator program parameters = .ok p) :
    p = ⟨evaluator, program, parameters⟩ := by
  obtain ⟨_, -, h⟩ := bind_ok h
  injection h with h
  exact h.symm

theorem authorize_sighash {registry : List WasmEvaluator}
    {program : ProgramInstance} {input : SigningInput} {witness : Bytes}
    {message : Hash}
    (h : authorize C registry program input witness message = .ok ()) :
    C.sighash input = .ok message := by
  obtain ⟨_, -, h⟩ := bind_ok h
  obtain ⟨hash, hhash, h⟩ := bind_ok h
  obtain ⟨_, heq, -⟩ := bind_ok h
  rw [outside_ok hhash, eq_of_beq (ensure_ok heq)]

theorem authorizeAction_ok {key : ProgramKey T} {grant : Grant T}
    {policy : Option (NativePolicy T)} {action : SigningAction T}
    (h : authorizeAction C self key grant policy action = .ok ()) :
    Approved C self key grant policy action := by
  cases action with
  | spend spend =>
      obtain ⟨input, hinput, h⟩ := bind_ok h
      exact ⟨input, outside_ok hinput, authorize_sighash h, h⟩
  | ownership ownership =>
      unfold authorizeAction at h
      cases policy with
      | none =>
          obtain ⟨message, hmessage, h⟩ := bind_ok h
          refine ⟨?_, fun p hp => nomatch hp⟩
          rw [outside_ok hmessage, eq_of_beq (ensure_ok h)]
      | some p =>
          obtain ⟨_, henforce, h⟩ := bind_ok h
          obtain ⟨message, hmessage, h⟩ := bind_ok h
          refine ⟨?_, ?_⟩
          · rw [outside_ok hmessage, eq_of_beq (ensure_ok h)]
          · intro q hq
            injection hq with hq
            rw [← hq]
            exact henforce

theorem checkPolicyProgram_ok {program : ProgramInstance}
    {p : NativePolicy T}
    (h : checkPolicyProgram C program (some p) = .ok ()) :
    (C.inlineWasmVersion program.evaluator).isSome := by
  unfold checkPolicyProgram at h
  split at h
  · cases h
  · next hno =>
      rw [Option.isSome_iff_ne_none]
      intro hnone
      exact hno ⟨rfl, by rw [hnone]; rfl⟩

theorem admitted_of_authorize {request : PrepareRequest T} {grant : Grant T}
    (h : prepareAuthorize C self request = .ok grant) :
    Admitted C self request grant := by
  obtain ⟨_, hprotocol, h⟩ := bind_ok h
  obtain ⟨_, hroot, h⟩ := bind_ok h
  obtain ⟨intent, hintent, h⟩ := bind_ok h
  obtain ⟨parsed, hparsed, h⟩ := bind_ok h
  obtain ⟨userNonce, hnonce, h⟩ := bind_ok h
  obtain ⟨program, hprogram, h⟩ := bind_ok h
  obtain ⟨_, hid, h⟩ := bind_ok h
  obtain ⟨derived, hderived, h⟩ := bind_ok h
  obtain ⟨_, hmember, h⟩ := bind_ok h
  obtain ⟨policy, hpolicy, h⟩ := bind_ok h
  obtain ⟨_, hinline, h⟩ := bind_ok h
  obtain ⟨_, haction, h⟩ := bind_ok h
  injection h with h
  subst h
  have hparts := programInstance_ok hprogram
  rw [hparts] at hpolicy hinline
  exact
    { protocol := eq_of_beq (ensure_ok hprotocol)
      root := eq_of_beq (ensure_ok hroot)
      intent := outside_ok hintent
      userNonce := ⟨parsed, outside_ok hparsed, outside_ok hnonce⟩
      program := hprogram
      identity := eq_of_beq (ensure_ok hid)
      member := ⟨derived, outside_ok hderived, eq_of_beq (ensure_ok hmember)⟩
      envelope := by
        cases policy with
        | none => exact .inl ((NativePolicy.parse_eq_none_iff C _).mp hpolicy)
        | some p => exact .inr ⟨⟨p, hpolicy⟩, checkPolicyProgram_ok hinline⟩
      action := ⟨policy, hpolicy, authorizeAction_ok haction⟩ }

/-! ## Calls that are past their checks -/

/-- Every prepare past its checks passed them, and the clock has not gone
back since it was read. -/
structure Checked (C : Crates T) (ark : ArkSigner T) (w : World T) :
    Prop where
  authorized : ∀ {k r g}, w.calls k = .authorized r g →
    prepareAuthorize C ark r = .ok g
  timed : ∀ {k r g now}, w.calls k = .timed r g now →
    prepareAuthorize C ark r = .ok g ∧ now ≤ w.clock

theorem checked_of_reached {w : World T} {es : List (Event T)}
    (h : Reached C self w es) : Checked C self w := by
  refine signer_induct (P := fun w _ => Checked C self w) ?_ ?_ h
  · exact ⟨fun hk => (nomatch hk), fun hk => (nomatch hk)⟩
  · intro w a w' es new hreach hw hm
    have hf := unused_of_reached hreach
    refine ⟨?_, ?_⟩
    · intro k r g hk
      rcases hm.authorized hf hk with hold | hok
      · exact hw.authorized hold
      · exact hok
    · intro k r g now hk
      rcases hm.timed hf hk with hold | ⟨hold, rfl⟩
      · exact ⟨(hw.timed hold).1, Nat.le_trans (hw.timed hold).2 hm.clock_le⟩
      · exact ⟨hw.authorized hold, hm.clock_le⟩

/-! ## Every entry has its `prepared` event -/

/-- The entry was put under this session id by a prepare of the run. -/
def Born (es : List (Event T)) (session : Hash) (entry : Pending T) : Prop :=
  ∃ call request now response,
    .prepared call request now response entry ∈ es ∧
    response.session = session

theorem Born.mono {es : List (Event T)} {session : Hash} {entry : Pending T}
    (h : Born es session entry) (new : List (Event T)) :
    Born (es ++ new) session entry := by
  obtain ⟨call, request, now, response, hmem, heq⟩ := h
  exact ⟨call, request, now, response, List.mem_append_left _ hmem, heq⟩

/-- What a `prepared` event records of the prepare that emitted it. -/
structure Minted (C : Crates T) (ark : ArkSigner T) (w : World T)
    (call : Nat) (request : PrepareRequest T) (now : Instant)
    (entry : Pending T) (grant : Grant T) : Prop where
  admitted : prepareAuthorize C ark request = .ok grant
  programId : entry.programId = C.instanceId grant.program
  intent : entry.intent = grant.intent
  userNonce : entry.userNonce = grant.userNonce
  serial : entry.nonce.serial = call
  secret : ∃ entropy, C.nonceNew grant.intent
    (getElem grant.intent.members 1 Nat.one_lt_two) entropy
      = .ok entry.nonce.secret
  expires : entry.expires = now + sessionLifetime
  read : now ≤ w.clock
  done : w.calls call = .returned

/-- The map, the held entries and the entries taken out all come from
`prepared` events, and those events are what they say. -/
structure History (C : Crates T) (ark : ArkSigner T) (w : World T)
    (es : List (Event T)) : Prop where
  minted : ∀ {call request now response entry},
    .prepared call request now response entry ∈ es →
    ∃ grant, Minted C ark w call request now entry grant
  pending : ∀ {s p}, w.pending.data.lookup s = some p → Born es s p
  holding : ∀ {k r p}, w.calls k = .holding r p →
    .took k r.session (some p) ∈ es
  took : ∀ {k s p}, .took k s (some p) ∈ es → Born es s p

/-- Where a `prepared` event of a step comes from. -/
theorem Moves.prepared {w w' : World T} {a : Act T} {new : List (Event T)}
    (h : Moves C self w a w' new) {call : Nat} {request : PrepareRequest T}
    {now : Instant} {response : PrepareResponse} {entry : Pending T}
    (hmem : .prepared call request now response entry ∈ new) :
    ∃ grant, w.calls call = .timed request grant now ∧
      Reserved C call grant now w.pending.data response entry ∧
      w'.pending.data =
        (prune now w.pending.data).insert response.session entry ∧
      w'.calls call = .returned ∧
      new = [.prepared call request now response entry] := by
  cases h with
  | reserve h hr =>
      rename_i grant _ _
      rw [List.mem_singleton] at hmem
      injection hmem with hc hq hn hp he
      subst hc hq hn hp he
      exact ⟨_, h, hr, rfl, World.setCall_calls_self _ _ _, rfl⟩
  | _ => simp at hmem

/-- Where a removal of a step comes from. -/
theorem Moves.took {w w' : World T} {a : Act T} {new : List (Event T)}
    (h : Moves C self w a w' new) {k : Nat} {s : Hash}
    {found : Option (Pending T)} (hmem : .took k s found ∈ new) :
    k = w.next ∧ w.pending.data.lookup s = found ∧
      w'.pending.data = w.pending.data.erase s ∧
      (∃ e, new = .took k s found :: e ∧ ∀ x ∈ e,
        (∃ q r, x = .finished k q r) ∨ ∃ q r, x = .cancelled k q r) := by
  cases h with
  | finishMissing h =>
      simp only [List.mem_cons, List.not_mem_nil, or_false,
        reduceCtorEq] at hmem
      injection hmem with hk hs hp
      subst hk hs hp
      refine ⟨rfl, h, rfl, _, rfl, ?_⟩
      intro x hx
      exact .inl ⟨_, _, List.mem_singleton.mp hx⟩
  | finishTake h =>
      rw [List.mem_singleton] at hmem
      injection hmem with hk hs hp
      subst hk hs hp
      refine ⟨rfl, h, rfl, [], rfl, ?_⟩
      intro x hx
      cases hx
  | cancel =>
      simp only [List.mem_cons, List.not_mem_nil, or_false,
        reduceCtorEq] at hmem
      injection hmem with hk hs hp
      subst hk hs hp
      refine ⟨rfl, rfl, rfl, _, rfl, ?_⟩
      intro x hx
      exact .inr ⟨_, _, List.mem_singleton.mp hx⟩
  | _ => simp at hmem

theorem Minted.step {w w' : World T} {a : Act T} {new : List (Event T)}
    {call : Nat} {request : PrepareRequest T} {now : Instant} {entry : Pending T}
    {grant : Grant T} (h : Minted C self w call request now entry grant)
    (hf : Unused w) (hm : Moves C self w a w' new) :
    Minted C self w' call request now entry grant :=
  { h with
    read := Nat.le_trans h.read hm.clock_le
    done := hm.returned hf h.done }

theorem history_of_reached {w : World T} {es : List (Event T)}
    (h : Reached C self w es) : History C self w es := by
  refine signer_induct (P := History C self) ?_ ?_ h
  · refine ⟨?_, ?_, ?_, ?_⟩
    · intro call request now response entry hmem
      cases hmem
    · intro s p hs
      cases hs
    · intro k r p hk
      cases hk
    · intro k s p hmem
      cases hmem
  · intro w a w' es new hreach hw hm
    have hf := unused_of_reached hreach
    have hmap : ∀ {s p}, w'.pending.data.lookup s = some p →
        Born (es ++ new) s p := by
      intro s p hs
      rcases hm.lookup hs with hold | ⟨call, r, g, now, response, -, -, rfl, -,
        rfl⟩
      · exact (hw.pending hold).mono new
      · exact ⟨call, r, now, response, by simp, rfl⟩
    refine ⟨?_, hmap, ?_, ?_⟩
    · intro call request now response entry hmem
      rcases List.mem_append.mp hmem with hold | hnew
      · obtain ⟨grant, hgrant⟩ := hw.minted hold
        exact ⟨grant, hgrant.step hf hm⟩
      · obtain ⟨grant, htimed, hr, -, hdone, -⟩ := hm.prepared hnew
        have hok := (checked_of_reached hreach).timed htimed
        exact ⟨grant,
          { admitted := hok.1
            programId := hr.programId
            intent := hr.intent
            userNonce := hr.userNonce
            serial := hr.serial
            secret := hr.secret
            expires := hr.expires
            read := Nat.le_trans hok.2 hm.clock_le
            done := hdone }⟩
    · intro k r p hk
      rcases hm.holding hf hk with hold | ⟨rfl, -, -, rfl⟩
      · exact List.mem_append_left _ (hw.holding hold)
      · exact List.mem_append_right _ List.mem_cons_self
    · intro k s p hmem
      rcases List.mem_append.mp hmem with hold | hnew
      · exact (hw.took hold).mono new
      · obtain ⟨-, hs, -, -⟩ := hm.took hnew
        exact (hw.pending hs).mono new

/-- The call that made an entry has returned. -/
theorem History.serial_returned {w : World T} {es : List (Event T)}
    (h : History C self w es) {s : Hash} {p : Pending T} (hb : Born es s p) :
    w.calls p.nonce.serial = .returned := by
  obtain ⟨call, request, now, response, hmem, -⟩ := hb
  obtain ⟨grant, hgrant⟩ := h.minted hmem
  rw [hgrant.serial]
  exact hgrant.done

end

end SapioTee
