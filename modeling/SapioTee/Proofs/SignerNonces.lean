import SapioTee.Model.Symbolic
import SapioTee.Proofs.SignerHistory

/-!
# Every nonce is used once, and only for what was authorized

A nonce is in the map, or held by the one call that took it out, or gone.
`Spent` is that as an invariant over state and history: the nonces taken so
far are distinct, none of them is still in the map, a held one has been
taken and not yet signed with, and no two places hold the same one. Its
preservation needs only where entries, held entries, removals and
signatures of a step come from; no case analysis over actions.

From it and the history follow the two results about whole runs: one use of
every nonce under any interleaving (`one_use`), and that a released partial
was authorized by exactly one earlier prepare, for exactly that session
(`finish_authorized`).
-/

namespace SapioTee

open Lib

section

variable {T : Types}

/-! ## Nonces in the history -/

/-- The nonce a finish or cancel obtained by removing its entry. -/
def Event.takenNonce : Event T → Option Nat
  | .took _ _ (some entry) => some entry.nonce.serial
  | _ => none

/-- The nonce handed to `Nonce::sign`. -/
def Event.signedNonce : Event T → Option Nat
  | .signed _ nonce _ _ => some nonce.serial
  | _ => none

/-- The prepare call that succeeded. -/
def Event.preparedCall : Event T → Option Nat
  | .prepared call _ _ _ _ => some call
  | _ => none

def takenNonces (es : List (Event T)) : List Nat :=
  es.filterMap Event.takenNonce

def signedNonces (es : List (Event T)) : List Nat :=
  es.filterMap Event.signedNonce

def preparedCalls (es : List (Event T)) : List Nat :=
  es.filterMap Event.preparedCall

theorem takenNonces_append (es new : List (Event T)) :
    takenNonces (es ++ new) = takenNonces es ++ takenNonces new :=
  List.filterMap_append

theorem signedNonces_append (es new : List (Event T)) :
    signedNonces (es ++ new) = signedNonces es ++ signedNonces new :=
  List.filterMap_append

theorem preparedCalls_append (es new : List (Event T)) :
    preparedCalls (es ++ new) = preparedCalls es ++ preparedCalls new :=
  List.filterMap_append

theorem mem_takenNonces {es : List (Event T)} {n : Nat} :
    n ∈ takenNonces es ↔
      ∃ k s p, .took k s (some p) ∈ es ∧ p.nonce.serial = n := by
  rw [takenNonces, List.mem_filterMap]
  constructor
  · rintro ⟨e, hmem, he⟩
    cases e with
    | took k s found =>
        cases found with
        | none => cases he
        | some p =>
            injection he with he
            exact ⟨k, s, p, hmem, he⟩
    | _ => cases he
  · rintro ⟨k, s, p, hmem, rfl⟩
    exact ⟨_, hmem, rfl⟩

variable {C : Crates T} {self : ArkSigner T} {w w' : World T} {a : Act T}
  {es new : List (Event T)}

/-- A step takes at most one nonce, out of an entry of the map. -/
theorem Moves.takenNonces (h : Moves C self w a w' new) :
    takenNonces new = [] ∨
    ∃ s p, w.pending.data.lookup s = some p ∧
      w'.pending.data = w.pending.data.erase s ∧
      takenNonces new = [p.nonce.serial] := by
  cases h with
  | finishTake h => exact .inr ⟨_, _, h, rfl, rfl⟩
  | cancel =>
      rename_i request
      cases hs : w.pending.data.lookup request.session with
      | none => exact .inl rfl
      | some p => exact .inr ⟨_, p, hs, rfl, rfl⟩
  | _ => exact .inl rfl

/-- A step signs with at most one nonce, held by a call that is then done. -/
theorem Moves.signedNonces (h : Moves C self w a w' new) :
    signedNonces new = [] ∨
    ∃ k r p, w.calls k = .holding r p ∧ w'.calls k = .returned ∧
      signedNonces new = [p.nonce.serial] := by
  cases h with
  | sign h hs =>
      exact .inr ⟨_, _, _, h, World.setCall_calls_self _ _ _, rfl⟩
  | _ => exact .inl rfl

/-! ## The invariant -/

structure Spent (w : World T) (es : List (Event T)) : Prop where
  taken_nodup : (takenNonces es).Nodup
  signed_nodup : (signedNonces es).Nodup
  signed_taken : ∀ {n}, n ∈ signedNonces es → n ∈ takenNonces es
  pending_untaken : ∀ {s p}, w.pending.data.lookup s = some p →
    p.nonce.serial ∉ takenNonces es
  pending_once : ∀ {s p s' p'}, w.pending.data.lookup s = some p →
    w.pending.data.lookup s' = some p' →
    p.nonce.serial = p'.nonce.serial → s = s'
  holding_taken : ∀ {k r p}, w.calls k = .holding r p →
    p.nonce.serial ∈ takenNonces es
  holding_unsigned : ∀ {k r p}, w.calls k = .holding r p →
    p.nonce.serial ∉ signedNonces es
  holding_once : ∀ {k r p k' r' p'}, w.calls k = .holding r p →
    w.calls k' = .holding r' p' →
    p.nonce.serial = p'.nonce.serial → k = k'

theorem spent_start : Spent (World.start : World T) [] := by
  constructor
  · exact List.nodup_nil
  · exact List.nodup_nil
  · intro n hn
    cases hn
  · intro s p hs
    cases hs
  · intro s p s' p' hs
    cases hs
  · intro k r p hk
    cases hk
  · intro k r p hk
    cases hk
  · intro k r p k' r' p' hk
    cases hk

theorem nodup_append_of_fresh {l new : List Nat} (hl : l.Nodup)
    (hnew : new = [] ∨ ∃ n, new = [n] ∧ n ∉ l) : (l ++ new).Nodup := by
  rcases hnew with rfl | ⟨n, rfl, hn⟩
  · rwa [List.append_nil]
  · rw [← List.concat_eq_append]
    exact hl.concat hn

/-- An entry a reservation puts in the map has a serial the map and the
history do not know: its call has not returned. -/
theorem reserved_fresh (hist : History C self w es) {call : Nat}
    {r : PrepareRequest T} {g : Grant T} {now : Instant}
    (htimed : w.calls call = .timed r g now) {s : Hash} {p : Pending T}
    (hb : Born es s p) : p.nonce.serial ≠ call := by
  intro heq
  have hdone := hist.serial_returned hb
  rw [heq, htimed] at hdone
  cases hdone

theorem Spent.step_pending (h : Spent w es) (hist : History C self w es)
    (hm : Moves C self w a w' new) {s : Hash} {p : Pending T}
    (hs : w'.pending.data.lookup s = some p) :
    p.nonce.serial ∉ takenNonces (es ++ new) := by
  rw [takenNonces_append, List.mem_append, not_or]
  rcases hm.lookup hs with hold | ⟨call, r, g, now, response, htimed, hr, -, -,
    rfl⟩
  · refine ⟨h.pending_untaken hold, ?_⟩
    rcases hm.takenNonces with hnone | ⟨s₀, p₀, hs₀, herase, htaken⟩
    · exact fun hmem => absurd (hnone ▸ hmem) List.not_mem_nil
    · intro hmem
      have heq := List.mem_singleton.mp (htaken ▸ hmem)
      have hsame := h.pending_once hold hs₀ heq
      rw [herase, hsame, AList.lookup_erase] at hs
      cases hs
  · refine ⟨?_, List.not_mem_nil⟩
    intro hmem
    obtain ⟨k, s', q, htook, heq⟩ := mem_takenNonces.mp hmem
    exact reserved_fresh hist htimed (hist.took htook) (heq.trans hr.serial)

theorem Spent.step_pending_once (h : Spent w es) (hist : History C self w es)
    (hm : Moves C self w a w' new) {s s' : Hash} {p p' : Pending T}
    (hs : w'.pending.data.lookup s = some p)
    (hs' : w'.pending.data.lookup s' = some p')
    (heq : p.nonce.serial = p'.nonce.serial) : s = s' := by
  rcases hm.lookup hs with hold | ⟨call, r, g, now, response, htimed, hr, hses,
    -, hnew⟩
  · rcases hm.lookup hs' with hold' | ⟨call, r, g, now, response, htimed, hr, -⟩
    · exact h.pending_once hold hold' heq
    · exact absurd (heq.trans hr.serial)
        (reserved_fresh hist htimed (hist.pending hold))
  · rcases hm.lookup hs' with hold' | ⟨call', r', g', now', response', -, -,
      hses', -, hnew'⟩
    · exact absurd (heq.symm.trans hr.serial)
        (reserved_fresh hist htimed (hist.pending hold'))
    · rw [hnew] at hnew'
      injection hnew' with hev _
      injection hev with _ _ _ hresp _
      rw [hses, hses', hresp]

theorem Spent.step_holding (h : Spent w es) (hf : Unused w)
    (hm : Moves C self w a w' new) {k : Nat} {r : FinishRequest}
    {p : Pending T} (hk : w'.calls k = .holding r p) :
    p.nonce.serial ∈ takenNonces (es ++ new) := by
  rw [takenNonces_append, List.mem_append]
  rcases hm.holding hf hk with hold | ⟨-, -, -, rfl⟩
  · exact .inl (h.holding_taken hold)
  · exact .inr List.mem_cons_self

theorem Spent.step_unsigned (h : Spent w es) (hf : Unused w)
    (hm : Moves C self w a w' new) {k : Nat} {r : FinishRequest}
    {p : Pending T} (hk : w'.calls k = .holding r p) :
    p.nonce.serial ∉ signedNonces (es ++ new) := by
  rw [signedNonces_append, List.mem_append, not_or]
  rcases hm.holding hf hk with hold | ⟨-, hs, -, rfl⟩
  · refine ⟨h.holding_unsigned hold, ?_⟩
    rcases hm.signedNonces with hnone | ⟨k₀, r₀, p₀, hold₀, hdone, hsigned⟩
    · exact fun hmem => absurd (hnone ▸ hmem) List.not_mem_nil
    · intro hmem
      have heq := List.mem_singleton.mp (hsigned ▸ hmem)
      have hsame := h.holding_once hold hold₀ heq
      rw [hsame, hdone] at hk
      cases hk
  · refine ⟨?_, List.not_mem_nil⟩
    intro hmem
    exact h.pending_untaken hs (h.signed_taken hmem)

theorem Spent.step_holding_once (h : Spent w es) (hf : Unused w)
    (hm : Moves C self w a w' new) {k k' : Nat} {r r' : FinishRequest}
    {p p' : Pending T} (hk : w'.calls k = .holding r p)
    (hk' : w'.calls k' = .holding r' p')
    (heq : p.nonce.serial = p'.nonce.serial) : k = k' := by
  rcases hm.holding hf hk with hold | ⟨hnext, hs, -, -⟩
  · rcases hm.holding hf hk' with hold' | ⟨-, hs', -, -⟩
    · exact h.holding_once hold hold' heq
    · exact absurd (heq ▸ h.holding_taken hold) (h.pending_untaken hs')
  · rcases hm.holding hf hk' with hold' | ⟨hnext', -, -, -⟩
    · exact absurd (heq ▸ h.holding_taken hold') (h.pending_untaken hs)
    · rw [hnext, hnext']

theorem Spent.step (h : Spent w es) (hist : History C self w es)
    (hf : Unused w) (hm : Moves C self w a w' new) : Spent w' (es ++ new) := by
  constructor
  · rw [takenNonces_append]
    refine nodup_append_of_fresh h.taken_nodup ?_
    rcases hm.takenNonces with hnone | ⟨s, p, hs, -, htaken⟩
    · exact .inl hnone
    · exact .inr ⟨_, htaken, h.pending_untaken hs⟩
  · rw [signedNonces_append]
    refine nodup_append_of_fresh h.signed_nodup ?_
    rcases hm.signedNonces with hnone | ⟨k, r, p, hk, -, hsigned⟩
    · exact .inl hnone
    · exact .inr ⟨_, hsigned, h.holding_unsigned hk⟩
  · intro n hn
    rw [takenNonces_append, List.mem_append]
    rw [signedNonces_append, List.mem_append] at hn
    rcases hn with hold | hnew
    · exact .inl (h.signed_taken hold)
    · rcases hm.signedNonces with hnone | ⟨k, r, p, hk, -, hsigned⟩
      · exact absurd (hnone ▸ hnew) List.not_mem_nil
      · rw [hsigned, List.mem_singleton] at hnew
        rw [hnew]
        exact .inl (h.holding_taken hk)
  · exact h.step_pending hist hm
  · exact h.step_pending_once hist hm
  · exact h.step_holding hf hm
  · exact h.step_unsigned hf hm
  · exact h.step_holding_once hf hm

theorem spent_of_reached (h : Reached C self w es) : Spent w es :=
  signer_induct (P := Spent) spent_start
    (fun hreach hw hm => hw.step (history_of_reached hreach)
      (unused_of_reached hreach) hm) h

/-! ## One use, under any interleaving -/

/-- What one use of every nonce means of a run: in its trace, in the state it
ended in, and for whatever step comes next. -/
structure OneUse (C : Crates T) (ark : ArkSigner T) (acts : List (Act T)) :
    Prop where
  /-- No nonce is handed to `Nonce::sign` twice. -/
  signed_once : (signedNonces ((signer C ark).trace acts)).Nodup
  /-- No two finishes or cancels obtain the same nonce. -/
  taken_once : (takenNonces ((signer C ark).trace acts)).Nodup
  /-- A nonce some call obtained is not in the map any more, and no other
  call has it. -/
  taken_gone : ∀ {k s p},
    .took k s (some p) ∈ (signer C ark).trace acts →
    (∀ s' p', ((signer C ark).state acts).pending.data.lookup s' = some p' →
      p'.nonce.serial ≠ p.nonce.serial) ∧
    (∀ k' r p', ((signer C ark).state acts).calls k' = .holding r p' →
      p'.nonce.serial = p.nonce.serial → k' = k)
  /-- Whatever else a finish or cancel holds, it removes what it names. -/
  finish_removes : ∀ request : FinishRequest,
    ((signer C ark).state (acts ++ [.finish request])).pending.data.lookup
      request.session = none
  cancel_removes : ∀ request : CancelRequest,
    ((signer C ark).state (acts ++ [.cancel request])).pending.data.lookup
      request.session = none
  /-- An insert goes under an id that the map, rid of what had expired, does
  not hold. -/
  insert_free : ∀ {a call request now response entry},
    .prepared call request now response entry
      ∈ ((signer C ark).step ((signer C ark).state acts) a).2 →
    response.session
      ∉ prune now ((signer C ark).state acts).pending.data ∧
    ((signer C ark).state (acts ++ [a])).pending.data =
      (prune now ((signer C ark).state acts).pending.data).insert
        response.session entry

theorem stepFinish_data (h : w.pending.poisoned = false)
    (request : FinishRequest) :
    (w.stepFinish request).1.pending.data
      = w.pending.data.erase request.session := by
  simp only [World.stepFinish, h]
  cases w.pending.data.lookup request.session <;> rfl

theorem stepCancel_data (h : w.pending.poisoned = false)
    (request : CancelRequest) :
    (w.stepCancel request).1.pending.data
      = w.pending.data.erase request.session := by
  simp only [World.stepCancel, h]
  rfl

theorem one_use (C : Crates T) (self : ArkSigner T) (acts : List (Act T)) :
    OneUse C self acts := by
  have hreach := reached_run C self acts
  have hspent := spent_of_reached hreach
  have hist := history_of_reached hreach
  have hopen := unpoisoned_of_reached hreach
  refine ⟨hspent.signed_nodup, hspent.taken_nodup, ?_, ?_, ?_, ?_⟩
  · intro k s p htook
    have htaken := mem_takenNonces.mpr ⟨k, s, p, htook, rfl⟩
    refine ⟨?_, ?_⟩
    · intro s' p' hs' heq
      exact hspent.pending_untaken hs' (heq ▸ htaken)
    · intro k' r p' hk' heq
      have hsame := eq_of_nodup_marks hspent.taken_nodup (hist.holding hk')
        htook (k := p.nonce.serial) (congrArg some heq) rfl
      injection hsame
  · intro request
    rw [Machine.state_concat]
    show (World.stepFinish _ request).1.pending.data.lookup _ = none
    rw [stepFinish_data hopen, AList.lookup_erase]
  · intro request
    rw [Machine.state_concat]
    show (World.stepCancel _ request).1.pending.data.lookup _ = none
    rw [stepCancel_data hopen, AList.lookup_erase]
  · intro a call request now response entry hmem
    obtain ⟨grant, -, hr, hdata, -, -⟩ :=
      (step_moves ((signer C self).state acts) a).prepared hmem
    rw [Machine.state_concat]
    exact ⟨hr.free, hdata⟩

/-! ## Nothing is released that was not authorized -/

/-- This event is the success of a prepare whose request passed every check,
and the session signed with `nonce` and `keypair` is made of its intent, its
user nonce and the nonce it generated, under the key of its program. -/
def Licenses (C : Crates T) (self : ArkSigner T) (nonce : Nonce T)
    (keypair : T.Keypair) (session : T.Session) : Event T → Prop
  | .prepared call request _ _ entry =>
      entry.nonce = nonce ∧ nonce.serial = call ∧
      ∃ grant, Admitted C self request grant ∧
        (∃ entropy, C.nonceNew grant.intent
          (getElem grant.intent.members 1 Nat.one_lt_two) entropy
            = .ok nonce.secret) ∧
        (∃ serverNonce, C.sessionNew grant.intent grant.userNonce
          (C.noncePublic nonce.secret) serverNonce = .ok session) ∧
        ∃ derived, C.derivePriv self.root
            (C.programDerivationPath (C.instanceId grant.program))
              = .ok derived ∧
          C.addXonlyTweak (C.toKeypair derived) 0 = .ok keypair
  | _ => False

theorem Licenses.preparedCall {nonce : Nonce T} {keypair : T.Keypair}
    {session : T.Session} {e : Event T}
    (h : Licenses C self nonce keypair session e) :
    e.preparedCall = some nonce.serial := by
  cases e with
  | prepared call request now response entry => exact congrArg some h.2.1.symm
  | _ => cases h

theorem preparedCalls_nodup (h : Reached C self w es) :
    (preparedCalls es).Nodup := by
  refine signer_induct (P := fun _ es => (preparedCalls es).Nodup)
    List.nodup_nil ?_ h
  intro w a w' es new hreach hes hm
  rw [preparedCalls_append]
  refine nodup_append_of_fresh hes ?_
  by_cases hany : ∃ e ∈ new, e.preparedCall.isSome
  · obtain ⟨e, hmem, he⟩ := hany
    cases e with
    | prepared call request now response entry =>
        obtain ⟨grant, htimed, -, -, -, hnew⟩ := hm.prepared hmem
        refine .inr ⟨call, by rw [hnew]; rfl, ?_⟩
        intro hold
        obtain ⟨e, hmem, he⟩ := List.mem_filterMap.mp hold
        cases e with
        | prepared call' request' now' response' entry' =>
            injection he with he
            obtain ⟨grant', hmint⟩ := (history_of_reached hreach).minted hmem
            have hdone := hmint.done
            rw [he, htimed] at hdone
            cases hdone
        | _ => cases he
    | _ => cases he
  · refine .inl (List.filterMap_eq_nil_iff.mpr ?_)
    intro e hmem
    rw [← Option.not_isSome_iff_eq_none]
    exact fun hsome => hany ⟨e, hmem, hsome⟩

/-- What `finish` has established when it signs. -/
theorem finishSession_ok {request : FinishRequest} {entry : Pending T}
    {now : Instant} {session : T.Session} {keypair : T.Keypair}
    (h : finishSession C self request entry now = .ok (session, keypair)) :
    (∃ serverNonce, C.sessionNew entry.intent entry.userNonce
      (C.noncePublic entry.nonce.secret) serverNonce = .ok session) ∧
    ∃ derived, C.derivePriv self.root
        (C.programDerivationPath entry.programId) = .ok derived ∧
      C.addXonlyTweak (C.toKeypair derived) 0 = .ok keypair := by
  obtain ⟨_, -, h⟩ := bind_ok h
  obtain ⟨serverNonce, -, h⟩ := bind_ok h
  obtain ⟨serverShare, -, h⟩ := bind_ok h
  obtain ⟨_, -, h⟩ := bind_ok h
  obtain ⟨built, hbuilt, h⟩ := bind_ok h
  obtain ⟨_, -, h⟩ := bind_ok h
  obtain ⟨pair, hpair, h⟩ := bind_ok h
  injection h with h
  injection h with hs hk
  subst hs hk
  obtain ⟨derived, hderived, hpair⟩ := bind_ok hpair
  exact ⟨⟨serverNonce, outside_ok hbuilt⟩, derived, outside_ok hderived,
    outside_ok hpair⟩

/-- A signature was preceded by one prepare that licenses it, and by no other. -/
theorem licensed_once (hreach : Reached C self w es) {k : Nat}
    {request : FinishRequest} {entry : Pending T} {session : T.Session}
    {keypair : T.Keypair} (hk : w.calls k = .holding request entry)
    (hs : finishSession C self request entry w.clock = .ok (session, keypair)) :
    ∃ before e after, es = before ++ e :: after ∧
      Licenses C self entry.nonce keypair session e ∧
      ∀ e' ∈ before ++ after,
        ¬ Licenses C self entry.nonce keypair session e' := by
  have hist := history_of_reached hreach
  obtain ⟨call, r, now, response, hmem, -⟩ := hist.took (hist.holding hk)
  obtain ⟨grant, hmint⟩ := hist.minted hmem
  obtain ⟨hsession, hkey⟩ := finishSession_ok hs
  rw [hmint.intent, hmint.userNonce] at hsession
  rw [hmint.programId] at hkey
  obtain ⟨before, after, rfl⟩ := List.append_of_mem hmem
  refine ⟨before, _, after, rfl, ?_, ?_⟩
  · exact ⟨rfl, hmint.serial, grant, admitted_of_authorize hmint.admitted,
      hmint.secret, hsession, hkey⟩
  · intro e' he' hlic
    exact only_of_nodup_marks (preparedCalls_nodup hreach)
      (congrArg some hmint.serial.symm) e' he' hlic.preparedCall

/-- What stands before the success of a finish. -/
def Released (C : Crates T) (self : ArkSigner T) (pre : List (Event T)) :
    Event T → Prop
  | .finished call _ (.ok response) => ∃ nonce keypair session,
      pre.getLast? = some (.signed call nonce keypair session) ∧
      (∃ share, C.nonceSign nonce.secret keypair session = .ok share ∧
        response = ⟨signingProtocol, hexEncode (C.serializePartial share)⟩) ∧
      ∃ before e after, pre = before ++ e :: after ∧
        Licenses C self nonce keypair session e ∧
        ∀ e' ∈ before ++ after, ¬ Licenses C self nonce keypair session e'
  | _ => True

theorem Moves.finishedOk (h : Moves C self w a w' new) {k : Nat}
    {request : FinishRequest} {response : FinishResponse}
    (hmem : .finished k request (.ok response) ∈ new) :
    ∃ entry session keypair, w.calls k = .holding request entry ∧
      finishSession C self request entry w.clock = .ok (session, keypair) ∧
      finishRespond C entry session keypair = .ok response ∧
      new = [.signed k entry.nonce keypair session,
        .finished k request (.ok response)] := by
  cases h with
  | sign hcall hs =>
      simp only [List.mem_cons, List.not_mem_nil, or_false, reduceCtorEq,
        false_or] at hmem
      injection hmem with hk hq hr
      subst hk hq
      exact ⟨_, _, _, hcall, hs, hr.symm, by rw [← hr]⟩
  | _ => simp at hmem

theorem released_of_reached (h : Reached C self w es) :
    Always (Released C self) es := by
  refine signer_induct (P := fun _ es => Always (Released C self) es)
    (always_nil _) ?_ h
  intro w a w' es new hreach hes hm
  refine hes.append ?_
  intro pre e post hnew
  match e with
  | .finished k request (.ok response) =>
      have hmem : .finished k request (.ok response) ∈ new := by
        rw [hnew]
        exact List.mem_append_right _ List.mem_cons_self
      obtain ⟨entry, session, keypair, hcall, hs, hrespond, hshape⟩ :=
        hm.finishedOk hmem
      have hpre : pre = [.signed k entry.nonce keypair session] := by
        rw [hshape] at hnew
        match pre, hnew with
        | [], hnew => injection hnew with hev; cases hev
        | [x], hnew => injection hnew with hx; rw [hx]
        | x :: y :: pre, hnew =>
            injection hnew with _ hnew
            injection hnew with _ hnew
            cases pre <;> cases hnew
      obtain ⟨before, e, after, hsplit, hlic, honly⟩ :=
        licensed_once hreach hcall hs
      obtain ⟨share, hshare, hresponse⟩ := bind_ok hrespond
      injection hresponse with hresponse
      refine ⟨entry.nonce, keypair, session, ?_, ?_, before, e, after ++ pre, ?_,
        hlic, ?_⟩
      · rw [hpre, List.getLast?_concat]
      · exact ⟨share, outside_ok hshare, hresponse.symm⟩
      · rw [hsplit, List.append_assoc, List.cons_append]
      · intro e' he'
        rw [← List.append_assoc, List.mem_append] at he'
        rcases he' with hold | hsigned
        · exact honly e' hold
        · rw [hpre, List.mem_singleton] at hsigned
          rw [hsigned]
          exact id
  | .finished _ _ (.error _) => trivial
  | .refused .. | .prepared .. | .took .. | .signed .. | .cancelled .. =>
      trivial

/-- The share is the one signature before it, made with the nonce of this
prepare. -/
def Backed (C : Crates T) (self : ArkSigner T) (pre : List (Event T))
    (call : Nat) (response : FinishResponse) (prepare : PrepareRequest T) :
    Prop :=
  ∃ nonce keypair session opener now opened entry,
    pre.getLast? = some (.signed call nonce keypair session) ∧
    (∃ share, C.nonceSign nonce.secret keypair session = .ok share ∧
      response = ⟨signingProtocol, hexEncode (C.serializePartial share)⟩) ∧
    .prepared opener prepare now opened entry ∈ pre ∧
    Licenses C self nonce keypair session
      (.prepared opener prepare now opened entry)

theorem Backed.admitted {pre : List (Event T)} {call : Nat}
    {response : FinishResponse} {prepare : PrepareRequest T}
    (h : Backed C self pre call response prepare) :
    ∃ grant, Admitted C self prepare grant := by
  obtain ⟨_, _, _, _, _, _, _, -, -, -, -, -, grant, hadmitted, -⟩ := h
  exact ⟨grant, hadmitted⟩

theorem backed_of_reached (h : Reached C self w es)
    {pre post : List (Event T)} {call : Nat} {request : FinishRequest}
    {response : FinishResponse}
    (hcut : es = pre ++ .finished call request (.ok response) :: post) :
    ∃ prepare, Backed C self pre call response prepare := by
  obtain ⟨nonce, keypair, session, hlast, hshare, before, e, after, hpre,
    hlic, -⟩ := released_of_reached h pre _ post hcut
  cases e with
  | prepared opener prepare now opened entry =>
      refine ⟨prepare, nonce, keypair, session, opener, now, opened, entry,
        hlast, hshare, ?_, hlic⟩
      rw [hpre]
      exact List.mem_append_right _ List.mem_cons_self
  | _ => cases hlic

/-- A nonce that signed is in no other signature. -/
theorem signed_only (hreach : Reached C self w es) {pre post : List (Event T)}
    {call : Nat} {nonce : Nonce T} {keypair : T.Keypair} {session : T.Session}
    (h : es = pre ++ .signed call nonce keypair session :: post) :
    ∀ e ∈ pre ++ post, e.signedNonce ≠ some nonce.serial := by
  have hnodup := (spent_of_reached hreach).signed_nodup
  rw [h] at hnodup
  exact only_of_nodup_marks hnodup rfl

/-- Whenever a finish of a run returned a partial, the event right before is
the one signature it made, and exactly one prepare of the run before it
licenses that signature. -/
theorem finish_authorized (C : Crates T) (self : ArkSigner T)
    (acts : List (Act T)) {pre post : List (Event T)} {call : Nat}
    {request : FinishRequest} {response : FinishResponse}
    (h : (signer C self).trace acts
      = pre ++ .finished call request (.ok response) :: post) :
    ∃ nonce keypair session,
      pre.getLast? = some (.signed call nonce keypair session) ∧
      (∃ share, C.nonceSign nonce.secret keypair session = .ok share ∧
        response = ⟨signingProtocol, hexEncode (C.serializePartial share)⟩) ∧
      ∃ before e after, pre = before ++ e :: after ∧
        Licenses C self nonce keypair session e ∧
        ∀ e' ∈ before ++ after, ¬ Licenses C self nonce keypair session e' :=
  released_of_reached (reached_run C self acts) pre _ post h

end

/-- One prepare, finished: the run releases a partial, and the prepare is the
one that licenses it. -/
theorem finish_authorized_signingRun :
    ∃ pre response nonce keypair session before e after,
      (signer symbolicCrates Symbolic.self).trace Symbolic.signingRun
        = pre ++ [.finished 1 (Symbolic.finishRequest 5) (.ok response)] ∧
      pre.getLast? = some (.signed 1 nonce keypair session) ∧
      pre = before ++ e :: after ∧
      Licenses symbolicCrates Symbolic.self nonce keypair session e := by
  obtain ⟨response, hrun⟩ : ∃ response,
      (signer symbolicCrates Symbolic.self).trace Symbolic.signingRun
        = ((signer symbolicCrates Symbolic.self).trace
            Symbolic.signingRun).take 3
          ++ [.finished 1 (Symbolic.finishRequest 5) (.ok response)] :=
    ⟨_, rfl⟩
  obtain ⟨nonce, keypair, session, hlast, -, before, e, after, hpre, hlic, -⟩ :=
    finish_authorized symbolicCrates Symbolic.self Symbolic.signingRun hrun
  exact ⟨_, response, nonce, keypair, session, before, e, after, hrun, hlast,
    hpre, hlic⟩

end SapioTee
