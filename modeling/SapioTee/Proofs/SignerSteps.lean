import SapioTee.Model.ArkSigner

/-!
# What one step of the signer can do

Every invariant of the signer is proved against `Moves`, which says once
what an action can do to the world and which events it leaves behind, guards
included. `step_moves` is the only place that unfolds the step functions for
that purpose; the proofs after it are case analyses over fourteen short
shapes.

The reservation is the one shape with content of its own, so what it
guarantees is a structure, `Reserved`: there was room in the pruned map, the
id was free in it, and the entry is the one the grant and the clock reading
determine.
-/

namespace SapioTee

open Lib

section

variable {T : Types} {C : Crates T} {self : ArkSigner T}

/-- What a successful critical section of `prepare` guarantees. -/
structure Reserved (C : Crates T) (call : Nat) (grant : Grant T)
    (now : Instant) (pending : Sessions T) (response : PrepareResponse)
    (entry : Pending T) : Prop where
  room : (prune now pending).size < maxPendingSessions
  userRoom :
    heldByUser (getElem grant.intent.members 0 Nat.zero_lt_two)
      (prune now pending) < maxSessionsPerUser
  free : response.session ∉ prune now pending
  programId : entry.programId = C.instanceId grant.program
  intent : entry.intent = grant.intent
  userNonce : entry.userNonce = grant.userNonce
  serial : entry.nonce.serial = call
  secret : ∃ entropy, C.nonceNew grant.intent
    (getElem grant.intent.members 1 Nat.one_lt_two) entropy
      = .ok entry.nonce.secret
  expires : entry.expires = now + sessionLifetime

theorem drawSession_free {pending : Sessions T} {draws : List Hash}
    {id : Hash} (h : drawSession pending draws = some id) : id ∉ pending := by
  have hfound := List.find?_some h
  simpa using hfound

theorem prepareReserve_cases {call : Nat} {grant : Grant T} {now : Instant}
    {entropy : T.Entropy} {draws : List Hash} {pending pending' : Sessions T}
    {result : Except Error (PrepareResponse × Pending T)}
    (h : prepareReserve C call grant now entropy draws pending
      = some (result, pending')) :
    (∃ error, result = .error error ∧ pending' = prune now pending) ∨
    (∃ response entry, result = .ok (response, entry) ∧
      Reserved C call grant now pending response entry ∧
      pending' = (prune now pending).insert response.session entry) := by
  simp only [prepareReserve] at h
  split at h
  · injection h with h
    injection h with hres hpend
    exact .inl ⟨_, hres.symm, hpend.symm⟩
  · next hroom =>
      split at h
      · injection h with h
        injection h with hres hpend
        exact .inl ⟨_, hres.symm, hpend.symm⟩
      · next huser =>
          split at h
          · injection h with h
            injection h with hres hpend
            exact .inl ⟨_, hres.symm, hpend.symm⟩
          · next hsecret =>
              split at h
              · cases h
              · next hdraw =>
                  injection h with h
                  injection h with hres hpend
                  refine .inr ⟨_, _, hres.symm, ?_, hpend.symm⟩
                  exact
                    { room := Nat.lt_of_not_le hroom
                      userRoom := Nat.lt_of_not_le huser
                      free := drawSession_free hdraw
                      programId := rfl
                      intent := rfl
                      userNonce := rfl
                      serial := rfl
                      secret := ⟨_, hsecret⟩
                      expires := rfl }

/-- A finish or cancel that names the session in its request. -/
def Act.names (s : Hash) : Act T → Bool
  | .finish request => decide (request.session = s)
  | .cancel request => decide (request.session = s)
  | _ => false

/-- One step of the signer, as a relation. -/
inductive Moves (C : Crates T) (self : ArkSigner T) (w : World T) :
    Act T → World T → List (Event T) → Prop where
  | tick (nanos : Nat) :
      Moves C self w (.tick nanos) { w with clock := w.clock + nanos } []
  | stay {a : Act T} (h : ∀ s, a.names s = false) : Moves C self w a w []
  | refuse {request : PrepareRequest T} {error : Error}
      (h : prepareAuthorize C self request = .error error) :
      Moves C self w (.prepare request) (w.enter .returned)
        [.refused w.next request error]
  | authorize {request : PrepareRequest T} {grant : Grant T}
      (h : prepareAuthorize C self request = .ok grant) :
      Moves C self w (.prepare request) (w.enter (.authorized request grant)) []
  | readClock {call : Nat} {request : PrepareRequest T} {grant : Grant T}
      (h : w.calls call = .authorized request grant) :
      Moves C self w (.readClock call)
        (w.setCall call (.timed request grant w.clock)) []
  | reserveRefused {call : Nat} {entropy : T.Entropy} {draws : List Hash}
      {request : PrepareRequest T} {grant : Grant T} {now : Instant}
      {error : Error} {pending : Sessions T}
      (h : w.calls call = .timed request grant now)
      (hp : pending = w.pending.data ∨ pending = prune now w.pending.data) :
      Moves C self w (.reserve call entropy draws)
        ((w.setPending pending).setCall call .returned)
        [.refused call request error]
  | reserve {call : Nat} {entropy : T.Entropy} {draws : List Hash}
      {request : PrepareRequest T} {grant : Grant T} {now : Instant}
      {response : PrepareResponse} {entry : Pending T}
      (h : w.calls call = .timed request grant now)
      (hr : Reserved C call grant now w.pending.data response entry) :
      Moves C self w (.reserve call entropy draws)
        ((w.setPending ((prune now w.pending.data).insert response.session
          entry)).setCall call .returned)
        [.prepared call request now response entry]
  | finishPoisoned {request : FinishRequest} (h : w.pending.poisoned = true) :
      Moves C self w (.finish request) (w.enter .returned)
        [.finished w.next request (.error stateUnavailable)]
  | finishMissing {request : FinishRequest}
      (h : w.pending.data.lookup request.session = none) :
      Moves C self w (.finish request)
        ((w.setPending (w.pending.data.erase request.session)).enter .returned)
        [.took w.next request.session none,
          .finished w.next request (.error unknownSession)]
  | finishTake {request : FinishRequest} {entry : Pending T}
      (h : w.pending.data.lookup request.session = some entry) :
      Moves C self w (.finish request)
        ((w.setPending (w.pending.data.erase request.session)).enter
          (.holding request entry))
        [.took w.next request.session (some entry)]
  | signRefused {call : Nat} {request : FinishRequest} {entry : Pending T}
      {error : Error} (h : w.calls call = .holding request entry)
      (hs : finishSession C self request entry w.clock = .error error) :
      Moves C self w (.sign call) (w.setCall call .returned)
        [.finished call request (.error error)]
  | sign {call : Nat} {request : FinishRequest} {entry : Pending T}
      {session : T.Session} {keypair : T.Keypair}
      (h : w.calls call = .holding request entry)
      (hs : finishSession C self request entry w.clock
        = .ok (session, keypair)) :
      Moves C self w (.sign call) (w.setCall call .returned)
        [.signed call entry.nonce keypair session,
          .finished call request (finishRespond C entry session keypair)]
  | cancelPoisoned {request : CancelRequest} (h : w.pending.poisoned = true) :
      Moves C self w (.cancel request) (w.enter .returned)
        [.cancelled w.next request (.error stateUnavailable)]
  | cancel {request : CancelRequest} :
      Moves C self w (.cancel request)
        ((w.setPending (w.pending.data.erase request.session)).enter .returned)
        [.took w.next request.session
            (w.pending.data.lookup request.session),
          .cancelled w.next request
            (cancelResult request (w.pending.data.lookup request.session))]

theorem step_moves (w : World T) (a : Act T) :
    Moves C self w a (w.step C self a).1 (w.step C self a).2 := by
  cases a with
  | tick nanos => exact .tick nanos
  | prepare request =>
      simp only [World.step, World.stepPrepare]
      split
      · next h => exact .refuse h
      · next h => exact .authorize h
  | readClock call =>
      simp only [World.step, World.stepReadClock]
      split
      · next h => exact .readClock h
      · exact .stay fun _ => rfl
  | reserve call entropy draws =>
      simp only [World.step, World.stepReserve]
      split
      · next hcall =>
          split
          · exact .reserveRefused hcall (.inl rfl)
          · split
            · exact .stay fun _ => rfl
            · next hres =>
                obtain ⟨error, -, rfl⟩ | ⟨response, entry, herr, -⟩ :=
                  prepareReserve_cases hres
                · exact .reserveRefused hcall (.inr rfl)
                · cases herr
            · next hres =>
                obtain ⟨error, herr, -⟩ | ⟨response, entry, hok, hr, rfl⟩ :=
                  prepareReserve_cases hres
                · cases herr
                · cases hok
                  exact .reserve hcall hr
      · exact .stay fun _ => rfl
  | finish request =>
      simp only [World.step, World.stepFinish]
      split
      · next h => exact .finishPoisoned h
      · split
        · next h => exact .finishMissing h
        · next h => exact .finishTake h
  | sign call =>
      simp only [World.step, World.stepSign]
      split
      · next hcall =>
          split
          · next h => exact .signRefused hcall h
          · next h => exact .sign hcall h
      · exact .stay fun _ => rfl
  | cancel request =>
      simp only [World.step, World.stepCancel]
      split
      · next h => exact .cancelPoisoned h
      · exact .cancel

/-- A state and the history that led to it. -/
def Reached (C : Crates T) (self : ArkSigner T) (w : World T)
    (es : List (Event T)) : Prop :=
  ∃ acts, w = (signer C self).state acts ∧ es = (signer C self).trace acts

theorem reached_run (C : Crates T) (self : ArkSigner T) (acts : List (Act T)) :
    Reached C self ((signer C self).state acts) ((signer C self).trace acts) :=
  ⟨acts, rfl, rfl⟩

/-- A property of state and history that every shape of step keeps holds
along every run. -/
theorem signer_induct {P : World T → List (Event T) → Prop}
    (h0 : P World.start [])
    (hstep : ∀ {w a w' es new}, Reached C self w es → P w es →
      Moves C self w a w' new → P w' (es ++ new))
    {w : World T} {es : List (Event T)} (hreach : Reached C self w es) :
    P w es := by
  obtain ⟨acts, rfl, rfl⟩ := hreach
  exact (signer C self).run_induct_reach h0
    (fun as a h => hstep ⟨as, rfl, rfl⟩ h (step_moves _ a)) acts

end

/-! ## What the updates leave alone -/

namespace World

variable {T : Types} (w : World T)

@[simp] theorem setCall_pending (call : Nat) (c : Call T) :
    (w.setCall call c).pending = w.pending := rfl

@[simp] theorem setPending_data (pending : Sessions T) :
    (w.setPending pending).pending.data = pending := rfl

@[simp] theorem enter_next (c : Call T) : (w.enter c).next = w.next + 1 := rfl

theorem setCall_calls_self (call : Nat) (c : Call T) :
    (w.setCall call c).calls call = c := Function.update_self _ _ _

theorem setCall_calls_ne {call k : Nat} (c : Call T) (h : k ≠ call) :
    (w.setCall call c).calls k = w.calls k := Function.update_of_ne h _ _

theorem enter_calls_self (c : Call T) : (w.enter c).calls w.next = c :=
  Function.update_self _ _ _

theorem enter_calls_ne {k : Nat} (c : Call T) (h : k ≠ w.next) :
    (w.enter c).calls k = w.calls k := Function.update_of_ne h _ _

end World

/-! ## Frame facts, read off the shapes -/

section

variable {T : Types} {C : Crates T} {self : ArkSigner T} {w w' : World T}
  {a : Act T} {new : List (Event T)}

theorem lookup_prune {now : Instant} {m : Sessions T} {s : Hash}
    {p : Pending T} :
    (prune now m).lookup s = some p ↔ m.lookup s = some p ∧ now < p.expires := by
  rw [prune, Table.lookup_retain, Option.filter_eq_some_iff,
    decide_eq_true_eq]

theorem Moves.clock_le (h : Moves C self w a w' new) : w.clock ≤ w'.clock := by
  cases h with
  | tick nanos => exact Nat.le_add_right _ _
  | _ => exact Nat.le_refl _

theorem Moves.poisoned (h : Moves C self w a w' new) :
    w'.pending.poisoned = w.pending.poisoned := by
  cases h <;> rfl

theorem unpoisoned_of_reached {es : List (Event T)}
    (h : Reached C self w es) :
    w.pending.poisoned = false :=
  signer_induct (P := fun w _ => w.pending.poisoned = false) rfl
    (fun _ hw hm => hm.poisoned.trans hw) h

/-- Calls are numbered in the order they start, so the numbers from `next`
on are unused. -/
def Unused (w : World T) : Prop := ∀ k, w.next ≤ k → w.calls k = .idle

theorem unused_setCall {call : Nat} {c c' : Call T} (hf : Unused w)
    (hcall : w.calls call = c') (hne : c' ≠ .idle) :
    Unused (w.setCall call c) := by
  intro k hk
  by_cases heq : k = call
  · subst heq
    exact absurd (hcall.symm.trans (hf _ hk)) hne
  · rw [World.setCall_calls_ne _ _ heq]
    exact hf k hk

theorem unused_enter {c : Call T} (hf : Unused w) : Unused (w.enter c) := by
  intro k hk
  rw [World.enter_next] at hk
  rw [World.enter_calls_ne _ _ (by omega)]
  exact hf k (by omega)

theorem Moves.unused (h : Moves C self w a w' new) (hf : Unused w) :
    Unused w' := by
  cases h with
  | tick nanos => exact hf
  | stay h => exact hf
  | readClock h => exact unused_setCall hf h (by simp)
  | reserveRefused h hp => exact unused_setCall (w := w.setPending _) hf h (by simp)
  | reserve h hr => exact unused_setCall (w := w.setPending _) hf h (by simp)
  | signRefused h hs => exact unused_setCall hf h (by simp)
  | sign h hs => exact unused_setCall hf h (by simp)
  | finishMissing h => exact unused_enter (w := w.setPending _) hf
  | finishTake h => exact unused_enter (w := w.setPending _) hf
  | cancel => exact unused_enter (w := w.setPending _) hf
  | _ => exact unused_enter hf

theorem unused_of_reached {es : List (Event T)} (h : Reached C self w es) :
    Unused w :=
  signer_induct (P := fun w _ => Unused w) (fun _ _ => rfl)
    (fun _ hw hm => hm.unused hw) h

/-- What a step can do to one call. -/
inductive CallMoves (C : Crates T) (self : ArkSigner T) (w w' : World T)
    (new : List (Event T)) (k : Nat) : Call T → Call T → Prop where
  | same {c : Call T} : CallMoves C self w w' new k c c
  | answered : CallMoves C self w w' new k .idle .returned
  | authorized {request : PrepareRequest T} {grant : Grant T}
      (h : prepareAuthorize C self request = .ok grant) :
      CallMoves C self w w' new k .idle (.authorized request grant)
  | readClock {request : PrepareRequest T} {grant : Grant T} :
      CallMoves C self w w' new k (.authorized request grant)
        (.timed request grant w.clock)
  | reserved {request : PrepareRequest T} {grant : Grant T} {now : Instant} :
      CallMoves C self w w' new k (.timed request grant now) .returned
  | took {request : FinishRequest} {entry : Pending T} (hk : k = w.next)
      (h : w.pending.data.lookup request.session = some entry)
      (hp : w'.pending.data = w.pending.data.erase request.session)
      (hn : new = [.took w.next request.session (some entry)]) :
      CallMoves C self w w' new k .idle (.holding request entry)
  | signed {request : FinishRequest} {entry : Pending T} :
      CallMoves C self w w' new k (.holding request entry) .returned

theorem callMoves_setCall {k call : Nat} {c : Call T} {m : Sessions T}
    (h : CallMoves C self w w' new call (w.calls call) c) :
    CallMoves C self w w' new k (w.calls k)
      (((w.setPending m).setCall call c).calls k) := by
  by_cases heq : k = call
  · subst heq
    rw [World.setCall_calls_self]
    exact h
  · rw [World.setCall_calls_ne _ _ heq]
    exact .same

theorem callMoves_enter {k : Nat} {c : Call T} {m : Sessions T}
    (hf : Unused w) (h : CallMoves C self w w' new w.next .idle c) :
    CallMoves C self w w' new k (w.calls k)
      (((w.setPending m).enter c).calls k) := by
  by_cases heq : k = w.next
  · subst heq
    rw [hf _ (Nat.le_refl _), show ((w.setPending m).enter c).calls w.next
      = c from World.enter_calls_self _ _]
    exact h
  · rw [show ((w.setPending m).enter c).calls k = w.calls k from
      World.enter_calls_ne _ _ heq]
    exact .same

theorem Moves.call (h : Moves C self w a w' new) (hf : Unused w) (k : Nat) :
    CallMoves C self w w' new k (w.calls k) (w'.calls k) := by
  cases h with
  | tick nanos => exact .same
  | stay => exact .same
  | refuse h => exact callMoves_enter (m := w.pending.data) hf .answered
  | authorize h =>
      exact callMoves_enter (m := w.pending.data) hf (.authorized h)
  | readClock h =>
      refine callMoves_setCall (m := w.pending.data) ?_
      rw [h]
      exact .readClock
  | reserveRefused h hp =>
      refine callMoves_setCall ?_
      rw [h]
      exact .reserved
  | reserve h hr =>
      refine callMoves_setCall ?_
      rw [h]
      exact .reserved
  | finishPoisoned h =>
      exact callMoves_enter (m := w.pending.data) hf .answered
  | finishMissing h => exact callMoves_enter hf .answered
  | finishTake h => exact callMoves_enter hf (.took rfl h rfl rfl)
  | signRefused h hs =>
      refine callMoves_setCall (m := w.pending.data) ?_
      rw [h]
      exact .signed
  | sign h hs =>
      refine callMoves_setCall (m := w.pending.data) ?_
      rw [h]
      exact .signed
  | cancelPoisoned h =>
      exact callMoves_enter (m := w.pending.data) hf .answered
  | cancel => exact callMoves_enter hf .answered

/-- A call that has returned stays returned. -/
theorem Moves.returned (h : Moves C self w a w' new) (hf : Unused w) {k : Nat}
    (hk : w.calls k = .returned) : w'.calls k = .returned := by
  have hcall := h.call hf k
  rw [hk] at hcall
  generalize w'.calls k = c at hcall
  cases hcall
  rfl

/-- Where a call that holds an entry got it from. -/
theorem Moves.holding (h : Moves C self w a w' new) (hf : Unused w) {k : Nat}
    {r : FinishRequest} {p : Pending T} (hk : w'.calls k = .holding r p) :
    w.calls k = .holding r p ∨
    (k = w.next ∧ w.pending.data.lookup r.session = some p ∧
      w'.pending.data = w.pending.data.erase r.session ∧
      new = [.took w.next r.session (some p)]) := by
  have hcall := h.call hf k
  rw [hk] at hcall
  generalize w.calls k = c at hcall
  cases hcall with
  | same => exact .inl rfl
  | took hk h hp hn => exact .inr ⟨hk, h, hp, hn⟩

/-- What a call past its checks or past its clock reading went through. -/
theorem Moves.authorized (h : Moves C self w a w' new) (hf : Unused w) {k : Nat}
    {r : PrepareRequest T} {g : Grant T} (hk : w'.calls k = .authorized r g) :
    w.calls k = .authorized r g ∨ prepareAuthorize C self r = .ok g := by
  have hcall := h.call hf k
  rw [hk] at hcall
  generalize w.calls k = c at hcall
  cases hcall with
  | same => exact .inl rfl
  | authorized h => exact .inr h

theorem Moves.timed (h : Moves C self w a w' new) (hf : Unused w) {k : Nat}
    {r : PrepareRequest T} {g : Grant T} {now : Instant}
    (hk : w'.calls k = .timed r g now) :
    w.calls k = .timed r g now ∨
    (w.calls k = .authorized r g ∧ now = w.clock) := by
  have hcall := h.call hf k
  rw [hk] at hcall
  generalize w.calls k = c at hcall
  cases hcall with
  | same => exact .inl rfl
  | readClock => exact .inr ⟨rfl, rfl⟩

/-- Where an entry of the map comes from: it was there, or this step is the
reservation that put it there. -/
theorem Moves.lookup (h : Moves C self w a w' new) {s : Hash} {p : Pending T}
    (hs : w'.pending.data.lookup s = some p) :
    w.pending.data.lookup s = some p ∨
    ∃ call request grant now response,
      w.calls call = .timed request grant now ∧
      Reserved C call grant now w.pending.data response p ∧
      s = response.session ∧ w'.calls call = .returned ∧
      new = [.prepared call request now response p] := by
  have herase : ∀ {k : Hash},
      (w.pending.data.erase k).lookup s = some p →
      w.pending.data.lookup s = some p := by
    intro k hk
    by_cases heq : s = k
    · subst heq
      rw [AList.lookup_erase] at hk
      cases hk
    · rwa [AList.lookup_erase_ne heq] at hk
  cases h with
  | reserveRefused h hp =>
      rcases hp with rfl | rfl
      · exact .inl hs
      · exact .inl (lookup_prune.mp hs).1
  | @reserve call entropy draws request grant now response entry h hr =>
      simp only [World.setCall_pending, World.setPending_data] at hs
      by_cases heq : s = response.session
      · rw [heq, AList.lookup_insert] at hs
        injection hs with hs
        subst hs
        exact .inr ⟨call, request, grant, now, response, h, hr, heq,
          World.setCall_calls_self _ _ _, rfl⟩
      · rw [AList.lookup_insert_ne heq] at hs
        exact .inl (lookup_prune.mp hs).1
  | finishMissing h => exact .inl (herase hs)
  | finishTake h => exact .inl (herase hs)
  | cancel => exact .inl (herase hs)
  | _ => exact .inl hs

end

end SapioTee
