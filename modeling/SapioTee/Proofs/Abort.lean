import SapioTee.Model.Symbolic
import SapioTee.Proofs.Setup

/-!
# A setup that is given up

The thread asks, in effect, whether anybody is still waiting: `ready.send`
fails once the receiver is gone, and then the thread returns an error and
the process ends. That covers a request that gives up before the report. It
does not cover one that gives up after it. A message that was sent stays
sent when nobody reads it, so a request that is dropped, or runs into its
five seconds, with the `Ok` already in its oneshot leaves a thread that
serves a root nobody published, and the next setup finds it gone.

`Settled` is the condition that no request does that, on the state before a
step, and `abandoned_iff` says it is exact: a run meets the contract in
every state it goes through just when every step of it is settled.

The process is `Terminating` when its thread has failed or has no way left
but to fail, because the request its job came from is gone. `ends` in
`Contract` says why that is the right word.
-/

namespace SapioTee.App

open Lib

section

variable {T : Types} {E : Enclave T} {w w' : World E} {a : Act}
  {es new : List (Event E)}

/-! ## The contract -/

/-- The job that is served is still being installed, or its identity is
published. -/
def Tended (w : World E) (es : List (Event E)) : Prop :=
  ∀ job, w.thread = .serving job →
    (∃ stage i, w.handlers job.ready = .installing stage i ∧
      i.oracle = job.oracle) ∨
    (∃ i, Publication w es job.ready i ∧ i.oracle = job.oracle)

/-- The request was started and has neither returned nor been dropped. -/
def Handler.InFlight : Handler E → Prop
  | .absent | .done => False
  | _ => True

/-- The thread has failed, or can only fail. -/
def Terminating (w : World E) : Prop :=
  match w.thread with
  | .starting | .receiving =>
      ∃ job, w.work = some job ∧ w.ready job.ready = .receiverGone
  | .binding job | .reporting job => w.ready job.ready = .receiverGone
  | .serving _ => False
  | .failing _ | .exited _ => True

/-- A setup in which everything goes well, as request `k`. -/
def retry (k : Nat) (settings : Settings) (output : SharedSecretOutput) :
    List Act :=
  [.setup settings, .lock k, .check k, .kms k (.ok output), .submit k,
    .runtime true, .receive, .bind (.ok ()), .report, .poll k, .setArk k,
    .setIdentity k]

/-- A setup whose KMS exchange and `install` work out publishes. -/
def RetrySucceeds (E : Enclave T) (acts : List Act) : Prop :=
  ∀ settings message output root i, E.nsm = true →
    settings.validate = .ok () →
    deriveRequest E.keys settings = .ok message →
    deriveFinish E.keys settings (.ok output) = .ok root →
    install E root settings = .ok i →
    ((app E).state (acts ++
      retry ((app E).state acts).next settings output)).identity =
        some i.identity

/-- What is promised after the run `acts`. -/
structure Contract (E : Enclave T) (acts : List Act) : Prop where
  tended : Tended ((app E).state acts) ((app E).trace acts)
  waiting : (∀ k, ¬ (((app E).state acts).handlers k).InFlight) →
    ¬ Terminating ((app E).state acts) →
    ((app E).state acts).identity = none →
    (((app E).state acts).thread = .starting ∨
      ((app E).state acts).thread = .receiving) ∧
    ((app E).state acts).work = none ∧
    receivedJobs ((app E).trace acts) = [] ∧
    RetrySucceeds E acts
  ends : Terminating ((app E).state acts) →
    (∀ more, Terminating ((app E).state (acts ++ more))) ∧
    ∀ built result, ∃ job, ((app E).state (acts ++ [.runtime built, .receive,
      .bind result, .report, .exit])).thread = .exited job

/-- The step gives up request `k` at its wait for the report. -/
def Abandons (w : World E) (a : Act) (k : Nat) : Prop :=
  (a = .drop k ∧ ∃ i, w.handlers k = .installing .waiting i) ∨
  (a = .giveUp k ∧ ∃ i, w.handlers k = .installing .timedOut i)

/-- The step does not give up a request whose `Ok` is there, unread, and
whose thread is serving. -/
def Settled (w : World E) (a : Act) : Prop :=
  ∀ k job, Abandons w a k → w.thread = .serving job →
    w.ready k ≠ .sent (.ok ())

/-! ## Served and tended -/

theorem tended_start : Tended (World.start : World E) [] := by
  intro job h
  cases h

/-- What is published is what is served. -/
theorem Sound.publication (hs : Sound w es) {job : SignerJob E}
    (hj : w.thread = .serving job) (hi : w.identity ≠ none) :
    ∃ i, Publication w es job.ready i ∧ i.oracle = job.oracle := by
  obtain ⟨k, i, hp⟩ := hs.told.publication hi
  have hjob := hp.received
  rw [hj] at hjob
  injection hjob with hjob
  subst hjob
  exact ⟨i, hp, rfl⟩

/-- An install whose job is served ends unpublished in one way only: it is
given up with its report unread. -/
theorem Leaves.abandons {job : SignerJob E} (h : Leaves w job.ready a new)
    (hs : Sound w es) (hj : w.thread = .serving job) {stage : Stage}
    {i : Install E} (hk : w.handlers job.ready = .installing stage i) :
    Abandons w a job.ready ∧ w.ready job.ready = .sent (.ok ()) := by
  have hserved := hs.linked.served job hj
  have hnone := hs.told.bare job.ready (.inr ⟨stage, i, hk⟩)
  have hunread : ∀ {stage} {i : Install E},
      w.handlers job.ready = .installing stage i →
      stage = .waiting ∨ stage = .timedOut →
      w.ready job.ready = .sent (.ok ()) := by
    intro stage i hk hstage
    have hfits := hs.guarded.fits_of hk
    rcases hserved with hsent | hgone
    · exact hsent
    · rcases hstage with rfl | rfl <;> exact absurd hgone hfits.2
  cases h with
  | noPlace hx hp =>
      have hunmade : w.ready job.ready = .unmade := hs.guarded.fits_of hx
      rw [hunmade] at hserved
      rcases hserved with hserved | hserved <;> cases hserved
  | notBound hx hr =>
      have hsent := hunread hx (.inl rfl)
      rw [hsent] at hr
      rcases hr with hr | ⟨text, hr⟩ <;> cases hr
  | gaveUp hx => exact ⟨.inr ⟨rfl, _, hx⟩, hunread hx (.inr rfl)⟩
  | droppedWaiting hx => exact ⟨.inl ⟨rfl, _, hx⟩, hunread hx (.inl rfl)⟩
  | arkTaken hx ha =>
      -- Only a request past `ark_signer.set` can have set it, and there is
      -- no other request past the gate.
      obtain ⟨k, i', hk'⟩ := hs.told.ark ha hnone
      have heq := hs.guarded.only hx k (by rw [hk']; trivial)
      rw [heq, hx] at hk'
      cases hk'
  | identityTaken hx hid => exact absurd hnone hid
  | busy hx _ | conflict hx _ | noNsm hx _ _ | noRequest hx _ _ | noRoot hx _
  | noInstall hx _ _ | responded hx | droppedDeriving hx =>
      rw [hk] at hx
      cases hx

/-- An install whose job is served goes on, unless it is given up. -/
theorem Moves.installing (h : Moves w a w' new) (hs : Sound w es)
    (hset : Settled w a) {job : SignerJob E} (hj : w.thread = .serving job)
    {stage : Stage} {i : Install E}
    (hk : w.handlers job.ready = .installing stage i)
    (hi : w'.identity = none) :
    ∃ stage', w'.handlers job.ready = .installing stage' i := by
  have hreq := h.request hs.guarded job.ready
  rw [hk] at hreq
  generalize w'.handlers job.ready = x', w.ready job.ready = o,
    w'.ready job.ready = o' at hreq
  cases hreq with
  | published hid =>
      rw [hi] at hid
      cases hid
  | left hleft =>
      obtain ⟨hab, hsent⟩ := hleft.abandons hs hj hk
      exact absurd hsent (hset job.ready job hab hj)
  | _ => exact ⟨_, rfl⟩

theorem Tended.step (ht : Tended w es) (hs : Sound w es) (hset : Settled w a)
    (h : Moves w a w' new) : Tended w' (es ++ new) := by
  intro job hjob
  by_cases hi : w'.identity = none
  · have hnone : w.identity = none := by
      cases hid : w.identity with
      | none => rfl
      | some text => simp [h.identity hid] at hi
    left
    by_cases hj : w.thread = .serving job
    · rcases ht job hj with ⟨stage, i, hk, ho⟩ | ⟨i, hp, -⟩
      · obtain ⟨stage', hk'⟩ := h.installing hs hset hj hk hi
        exact ⟨stage', i, hk', ho⟩
      · rw [hp.identity] at hnone
        cases hnone
    · cases h with
      | report h hr =>
          injection hjob with hjob
          subst hjob
          rcases hs.linked.awaited _ (.inr (.inr h)) with hgone | ⟨-, hk⟩
          · rw [hr] at hgone
            cases hgone
          · exact hk
      | _ => exact absurd hjob (by first | exact hj | simp)
  · exact .inr ((hs.step h).publication hjob hi)

/-! ## What terminating means -/

/-- Before the first receive: what is queued lost its receiver. -/
theorem terminating_of_work {job : SignerJob E} (hw : w.work = some job)
    (hr : w.ready job.ready = .receiverGone)
    (hth : w.thread = .starting ∨ w.thread = .receiving) : Terminating w := by
  rcases hth with hth | hth <;> simp only [Terminating, hth] <;>
    exact ⟨job, hw, hr⟩

theorem Terminating.step_queued (h : Moves w a w' new) (hg : Guarded w)
    {job : SignerJob E} (hw : w.work = some job)
    (hr : w.ready job.ready = .receiverGone)
    (hth : w.thread = .starting ∨ w.thread = .receiving) :
    Terminating w' := by
  have hgone := h.receiverGone hg hr
  have hthread := h.thread
  rcases h.work hw with hw' | hbinding | ⟨received, hexited⟩
  · generalize hth₀ : w.thread = t, hth' : w'.thread = t' at hthread hth
    cases hthread with
    | same => exact terminating_of_work hw' hgone (by rwa [hth'])
    | ready => exact terminating_of_work hw' hgone (.inr hth')
    | noRuntime => simp only [Terminating, hth']
    | received hw₀ hnone =>
        rw [hnone] at hw'
        cases hw'
    | failed ht => simp only [Terminating, hth']
    | bound | reported _ _ | exited => rcases hth with hth | hth <;> cases hth
  · simp only [Terminating, hbinding]
    exact hgone
  · simp only [Terminating, hexited]

theorem Terminating.step (ht : Terminating w) (hg : Guarded w)
    (h : Moves w a w' new) : Terminating w' := by
  have hthread := h.thread
  cases hth : w.thread with
  | starting =>
      simp only [Terminating, hth] at ht
      obtain ⟨job, hw, hr⟩ := ht
      exact step_queued h hg hw hr (.inl hth)
  | receiving =>
      simp only [Terminating, hth] at ht
      obtain ⟨job, hw, hr⟩ := ht
      exact step_queued h hg hw hr (.inr hth)
  | binding job =>
      simp only [Terminating, hth] at ht
      have hgone := h.receiverGone hg ht
      rw [hth] at hthread
      generalize hth' : w'.thread = t' at hthread
      cases hthread <;> simp only [Terminating, hth'] <;> exact hgone
  | reporting job =>
      simp only [Terminating, hth] at ht
      have hgone := h.receiverGone hg ht
      rw [hth] at hthread
      generalize hth' : w'.thread = t' at hthread
      cases hthread with
      | same =>
          simp only [Terminating, hth']
          exact hgone
      | reported hr hr' =>
          rw [ht] at hr
          cases hr
      | failed _ => simp only [Terminating, hth']
  | serving job => simp only [Terminating, hth] at ht
  | failing job =>
      rw [hth] at hthread
      generalize hth' : w'.thread = t' at hthread
      cases hthread <;> simp only [Terminating, hth']
  | exited job =>
      rw [hth] at hthread
      generalize hth' : w'.thread = t' at hthread
      cases hthread <;> simp only [Terminating, hth']

theorem terminating_append (E : Enclave T) {acts : List Act}
    (h : Terminating ((app E).state acts)) (more : List Act) :
    Terminating ((app E).state (acts ++ more)) :=
  (app E).stable_append (P := fun w _ => Terminating w) h
    (fun bs a ih => ih.step (sound E bs).guarded (step_moves _ a)) more

/-- The thread's own next steps are its last. -/
theorem terminating_exits (h : Terminating w) (built : Bool)
    (result : Except String Unit) :
    ∃ job, ((app E).runFrom w [.runtime built, .receive, .bind result,
      .report, .exit]).1.thread = .exited job := by
  have hexit : ∀ {w : World E} {job : Option (SignerJob E)},
      w.thread = .failing job → (w.step .exit).1.thread = .exited job := by
    intro w job hj
    simp only [World.step, World.stepExit, hj]
    split <;> rfl
  simp only [app, Machine.runFrom]
  cases hth : w.thread with
  | starting =>
      simp only [Terminating, hth] at h
      obtain ⟨job, hw, hr⟩ := h
      cases built with
      | true =>
          refine ⟨some job, hexit ?_⟩
          cases result <;>
            simp [World.step, World.stepRuntime, World.stepReceive,
              World.stepBind, World.stepReport, World.send, hth, hw, hr]
      | false =>
          refine ⟨none, hexit ?_⟩
          simp [World.step, World.stepRuntime, World.stepReceive,
            World.stepBind, World.stepReport, hth]
  | receiving =>
      simp only [Terminating, hth] at h
      obtain ⟨job, hw, hr⟩ := h
      refine ⟨some job, hexit ?_⟩
      cases result <;>
        simp [World.step, World.stepRuntime, World.stepReceive,
          World.stepBind, World.stepReport, World.send, hth, hw, hr]
  | binding job =>
      simp only [Terminating, hth] at h
      refine ⟨some job, hexit ?_⟩
      cases result <;>
        simp [World.step, World.stepRuntime, World.stepReceive,
          World.stepBind, World.stepReport, World.send, hth, h]
  | reporting job =>
      simp only [Terminating, hth] at h
      refine ⟨some job, hexit ?_⟩
      simp [World.step, World.stepRuntime, World.stepReceive,
        World.stepBind, World.stepReport, World.send, hth, h]
  | serving job =>
      simp only [Terminating, hth] at h
  | failing job =>
      refine ⟨job, hexit ?_⟩
      simp [World.step, World.stepRuntime, World.stepReceive,
        World.stepBind, World.stepReport, hth]
  | exited job =>
      refine ⟨job, ?_⟩
      simp [World.step, World.stepRuntime, World.stepReceive,
        World.stepBind, World.stepReport, World.stepExit, hth]

/-! ## A retried setup -/

/-- Nobody is at work and nothing was handed over: the state a retry finds. -/
structure Idle (w : World E) : Prop where
  gate : w.gate = none
  identity : w.identity = none
  arkSigner : w.arkSigner = none
  work : w.work = none
  thread : w.thread = .starting ∨ w.thread = .receiving

theorem retry_publishes (h : Idle w) {settings : Settings}
    {message : SharedSecretRequest} {output : SharedSecretOutput}
    {root : T.Xpriv} {i : Install E} (hn : E.nsm = true)
    (hv : settings.validate = .ok ())
    (hm : deriveRequest E.keys settings = .ok message)
    (hr : deriveFinish E.keys settings (.ok output) = .ok root)
    (hb : install E root settings = .ok i) :
    ((app E).runFrom w (retry w.next settings output)).1.identity =
      some i.identity := by
  obtain ⟨hgate, hid, hark, hwork, hth⟩ := h
  rcases hth with hth | hth <;>
    simp [app, retry, Machine.runFrom, World.step, World.stepSetup,
      World.stepLock, World.stepCheck, World.stepKms, World.stepSubmit,
      World.stepRuntime, World.stepReceive, World.stepBind, World.stepReport,
      World.stepPoll, World.stepSetArk, World.stepSetIdentity,
      World.setHandler, World.setReady, World.send, World.closed,
      hgate, hid, hark, hwork, hth, hn, hv, hm, hr, hb]

theorem idle_of_quiet (hs : Sound w es) (ht : Tended w es)
    (hq : ∀ k, ¬ (w.handlers k).InFlight) (hterm : ¬ Terminating w)
    (hi : w.identity = none) : Idle w := by
  have hinst : ∀ {k stage} {i : Install E},
      w.handlers k ≠ .installing stage i := by
    intro k stage i hk
    exact hq k (by rw [hk]; trivial)
  -- A job still to be reported on has a request that waits, which nobody
  -- does, or none, and then the process is ending.
  have hheld : ∀ job, Held w job → w.ready job.ready = .receiverGone := by
    intro job hj
    rcases hs.linked.awaited job hj with hgone | ⟨-, stage, i, hk, -⟩
    · exact hgone
    · exact absurd hk hinst
  have hthread : w.thread = .starting ∨ w.thread = .receiving := by
    cases hth : w.thread with
    | starting => exact .inl rfl
    | receiving => exact .inr rfl
    | binding job =>
        refine absurd ?_ hterm
        simp only [Terminating, hth]
        exact hheld job (.inr (.inl hth))
    | reporting job =>
        refine absurd ?_ hterm
        simp only [Terminating, hth]
        exact hheld job (.inr (.inr hth))
    | serving job =>
        rcases ht job hth with ⟨stage, i, hk, -⟩ | ⟨i, hp, -⟩
        · exact absurd hk hinst
        · rw [hp.identity] at hi
          cases hi
    | failing job => exact absurd (by simp only [Terminating, hth]) hterm
    | exited job => exact absurd (by simp only [Terminating, hth]) hterm
  refine ⟨?_, hi, ?_, ?_, hthread⟩
  · cases hg : w.gate with
    | none => rfl
    | some k =>
        refine absurd ?_ (hq k)
        have hholds := (hs.guarded.gate k).mp hg
        cases hk : w.handlers k <;> simp_all [Handler.Holds, Handler.InFlight]
  · by_cases ha : w.arkSigner = none
    · exact ha
    · obtain ⟨k, i, hk⟩ := hs.told.ark ha hi
      exact absurd hk hinst
  · cases hw : w.work with
    | none => rfl
    | some job =>
        refine absurd ?_ hterm
        rcases hthread with hth | hth <;>
          simp only [Terminating, hth] <;>
          exact ⟨job, hw, hheld job (.inl hw)⟩

/-! ## The contract, and when it holds -/

theorem contract_of_tended (E : Enclave T) (acts : List Act)
    (ht : Tended ((app E).state acts) ((app E).trace acts)) :
    Contract E acts where
  tended := ht
  waiting := by
    intro hq hterm hi
    have hs := sound E acts
    have hidle := idle_of_quiet hs ht hq hterm hi
    refine ⟨hidle.thread, hidle.work, ?_, ?_⟩
    · rw [hs.told.received]
      rcases hidle.thread with hth | hth <;> rw [hth] <;> rfl
    · intro settings message output root i hn hv hm hr hb
      rw [Machine.state_append]
      exact retry_publishes hidle hn hv hm hr hb
  ends := by
    intro h
    refine ⟨terminating_append E h, ?_⟩
    intro built result
    rw [Machine.state_append]
    exact terminating_exits h built result

theorem tended_of_settled (E : Enclave T) {acts : List Act}
    (h : (app E).Along Settled acts) :
    Tended ((app E).state acts) ((app E).trace acts) := by
  have hall := (app E).run_induct_along
    (P := fun w es => Sound w es ∧ Tended w es)
    ⟨⟨guarded_start, linked_start, told_start⟩, tended_start⟩
    (fun w es a hset hp =>
      ⟨hp.1.step (step_moves w a), hp.2.step hp.1 hset (step_moves w a)⟩) h
  exact hall.2

/-- Giving up a request whose report is unread leaves its job served and
untended. -/
theorem untended_of_abandons (hs : Sound w es) {k : Nat} {job : SignerJob E}
    (hab : Abandons w a k) (hj : w.thread = .serving job)
    (hsent : w.ready k = .sent (.ok ())) :
    ¬ Tended (w.step a).1 (es ++ (w.step a).2) := by
  have hplace : ∃ stage i, w.handlers k = .installing stage i := by
    rcases hab with ⟨-, i, hk⟩ | ⟨-, i, hk⟩
    · exact ⟨_, i, hk⟩
    · exact ⟨_, i, hk⟩
  have hstep : (w.step a).1 = w.leave k := by
    rcases hab with ⟨rfl, i, hk⟩ | ⟨rfl, i, hk⟩
    · simp only [World.step, World.stepDrop, hk]
    · simp only [World.step, World.stepGiveUp, hk, World.answer]
  obtain ⟨stage, i, hk⟩ := hplace
  have hready : job.ready = k := by
    have hjob := hs.linked.confirmed k stage i hk (.inl hsent)
    rw [hj] at hjob
    injection hjob with hjob
    rw [hjob]
  intro ht
  rw [hstep] at ht
  rcases ht job hj with ⟨stage', i', hk', -⟩ | ⟨i', hp, -⟩
  · rw [hready] at hk'
    have hdone : (w.leave k).handlers k = .done := Function.update_self _ _ _
    rw [hdone] at hk'
    cases hk'
  · have hnone := hs.told.bare k (.inr ⟨stage, i, hk⟩)
    have hset : w.identity = some i'.identity := hp.identity
    rw [hnone] at hset
    cases hset

theorem abandoned_iff (E : Enclave T) (acts : List Act) :
    (∀ pre post, acts = pre ++ post → Contract E pre) ↔
      (app E).Along Settled acts := by
  constructor
  · intro hall pre a post hacts k job hab hj hsent
    have hnext := hall (pre ++ [a]) post (by rw [hacts, List.append_assoc]; rfl)
    have ht := hnext.tended
    rw [Machine.state_concat, Machine.trace_concat] at ht
    exact untended_of_abandons (sound E pre) hab hj hsent ht
  · intro halong pre post hacts
    rw [hacts] at halong
    exact contract_of_tended E pre (tended_of_settled E halong.left)

/-- An action that gives nothing up. -/
def Act.keeps : Act → Bool
  | .drop _ | .giveUp _ => false
  | _ => true

theorem along_of_keeps {acts : List Act} (h : acts.all Act.keeps = true) :
    (app E).Along Settled acts := by
  intro pre a post hacts k job hab
  have hkeep : a.keeps = true := List.all_eq_true.mp h a (by simp [hacts])
  rcases hab with ⟨rfl, -⟩ | ⟨rfl, -⟩ <;> cases hkeep

end

theorem abandoned_iff_publishedRun :
    Contract symbolicEnclave Symbolic.publishedRun :=
  (abandoned_iff symbolicEnclave Symbolic.publishedRun).mpr
    (along_of_keeps rfl) _ [] (List.append_nil _).symm

/-- The report is sent, the client goes away before it is read: the thread
serves, nothing is published, and nobody is left to publish it. -/
theorem orphan_served :
    ¬ Tended ((app symbolicEnclave).state Symbolic.orphanRun)
      ((app symbolicEnclave).trace Symbolic.orphanRun) ∧
    (∀ k, ¬ (((app symbolicEnclave).state
      Symbolic.orphanRun).handlers k).InFlight) ∧
    ¬ Terminating ((app symbolicEnclave).state Symbolic.orphanRun) ∧
    ((app symbolicEnclave).state Symbolic.orphanRun).identity = none ∧
    ∃ job, ((app symbolicEnclave).state Symbolic.orphanRun).thread =
      .serving job := by
  refine ⟨?_, ?_, ?_, rfl, ⟨_, rfl⟩⟩
  · intro ht
    rcases ht _ rfl with ⟨stage, i, hk, -⟩ | ⟨i, hp, -⟩
    · cases hk
    · cases hp.identity
  · intro k
    cases k with
    | zero => exact id
    | succ k => exact id
  · exact id

end SapioTee.App
