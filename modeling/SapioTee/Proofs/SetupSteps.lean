import SapioTee.Model.App

/-!
# What one step of the process can do

`Moves` is the step function of `app` read as a relation, guards included,
and `step_moves` is the only place that unfolds it. A request ends in many
ways and always with the same effect, `World.leave`, so the ways it ends are
a relation of their own, `Leaves`, and `Moves` has one shape for all of
them.
-/

namespace SapioTee.App

open Lib

section

variable {T : Types} {E : Enclave T}

/-- The ways a request ends, and what it answers. -/
inductive Leaves (w : World E) (k : Nat) :
    Act → List (Event E) → Prop where
  | busy {settings : Settings} (h : w.handlers k = .validated settings)
      (hg : w.gate ≠ none) :
      Leaves w k (.lock k)
        [.answered k (.error (409, "setup already in progress"))]
  | conflict {settings : Settings} (h : w.handlers k = .locked settings)
      (hi : w.identity ≠ none) :
      Leaves w k (.check k) [.answered k
        (.error (409, "already initialized; restart to change identity"))]
  | noNsm {settings : Settings} (h : w.handlers k = .locked settings)
      (hi : w.identity = none) (hn : E.nsm = false) :
      Leaves w k (.check k)
        [.answered k (.error (503, "Nitro provisioning unavailable"))]
  | noRequest {settings : Settings} {error : Error}
      (h : w.handlers k = .locked settings) (hi : w.identity = none)
      (hr : deriveRequest E.keys settings = .error error) :
      Leaves w k (.check k)
        [.answered k (.error (502, "attested KMS provisioning failed"))]
  | noRoot {settings : Settings} {answer : Except String SharedSecretOutput}
      {error : Error} (h : w.handlers k = .deriving settings)
      (hr : deriveFinish E.keys settings answer = .error error) :
      Leaves w k (.kms k answer)
        [.answered k (.error (502, "attested KMS provisioning failed"))]
  | noInstall {settings : Settings}
      {answer : Except String SharedSecretOutput} {root : T.Xpriv}
      {error : Error} (h : w.handlers k = .deriving settings)
      (hr : deriveFinish E.keys settings answer = .ok root)
      (hb : install E root settings = .error error) :
      Leaves w k (.kms k answer) [.derived k answer root,
        .answered k (.error (503, "could not start signer"))]
  | noPlace {i : Install E} (h : w.handlers k = .installing .submitting i)
      (hp : w.closed = true ∨ w.work ≠ none) :
      Leaves w k (.submit k)
        [.answered k (.error (503, "could not start signer"))]
  | notBound {i : Install E} (h : w.handlers k = .installing .waiting i)
      (hr : w.ready k = .senderGone ∨
        ∃ text, w.ready k = .sent (.error text)) :
      Leaves w k (.poll k)
        [.answered k (.error (503, "could not start signer"))]
  | gaveUp {i : Install E} (h : w.handlers k = .installing .timedOut i) :
      Leaves w k (.giveUp k)
        [.answered k (.error (503, "could not start signer"))]
  | arkTaken {i : Install E} (h : w.handlers k = .installing .bound i)
      (ha : w.arkSigner ≠ none) :
      Leaves w k (.setArk k)
        [.answered k (.error (503, "could not start signer"))]
  | identityTaken {i : Install E} (h : w.handlers k = .installing .arkSet i)
      (hi : w.identity ≠ none) :
      Leaves w k (.setIdentity k)
        [.answered k (.error (503, "could not start signer"))]
  | responded (h : w.handlers k = .published) :
      Leaves w k (.respond k) [.answered k w.publicKey]
  | droppedDeriving {settings : Settings}
      (h : w.handlers k = .deriving settings) :
      Leaves w k (.drop k) [.dropped k]
  | droppedWaiting {i : Install E}
      (h : w.handlers k = .installing .waiting i) :
      Leaves w k (.drop k) [.dropped k]

/-- One step of the process, as a relation. -/
inductive Moves (w : World E) :
    Act → World E → List (Event E) → Prop where
  | stay {a : Act} : Moves w a w []
  | refuse {settings : Settings} {error : Error}
      (h : settings.validate = .error error) :
      Moves w (.setup settings) { w with
          handlers := Function.update w.handlers w.next .done
          next := w.next + 1 }
        [.started w.next settings,
          .answered w.next (.error (400, "invalid setup settings"))]
  | start {settings : Settings} (h : settings.validate = .ok ()) :
      Moves w (.setup settings) { w with
          handlers := Function.update w.handlers w.next (.validated settings)
          next := w.next + 1 }
        [.started w.next settings]
  | lock {k : Nat} {settings : Settings}
      (h : w.handlers k = .validated settings) (hg : w.gate = none) :
      Moves w (.lock k) { w with
          gate := some k
          handlers := Function.update w.handlers k (.locked settings) } []
  | ask {k : Nat} {settings : Settings} {message : SharedSecretRequest}
      (h : w.handlers k = .locked settings) (hi : w.identity = none)
      (hn : E.nsm = true)
      (hr : deriveRequest E.keys settings = .ok message) :
      Moves w (.check k) { w with
          handlers := Function.update w.handlers k (.deriving settings) }
        [.asked k message]
  | install {k : Nat} {settings : Settings}
      {answer : Except String SharedSecretOutput} {root : T.Xpriv}
      {i : Install E} (h : w.handlers k = .deriving settings)
      (hr : deriveFinish E.keys settings answer = .ok root)
      (hb : App.install E root settings = .ok i) :
      Moves w (.kms k answer) { w with
          handlers := Function.update w.handlers k (.installing .submitting i) }
        [.derived k answer root]
  | submit {k : Nat} {i : Install E}
      (h : w.handlers k = .installing .submitting i)
      (hc : w.closed = false) (hw : w.work = none) :
      Moves w (.submit k) { w with
          work := some ⟨i.oracle, k⟩
          ready := Function.update w.ready k .empty
          handlers := Function.update w.handlers k (.installing .waiting i) } []
  | confirm {k : Nat} {i : Install E}
      (h : w.handlers k = .installing .waiting i)
      (hr : w.ready k = .sent (.ok ())) :
      Moves w (.poll k) { w with
          ready := Function.update w.ready k .receiverGone
          handlers := Function.update w.handlers k (.installing .bound i) } []
  | timeout {k : Nat} {i : Install E}
      (h : w.handlers k = .installing .waiting i) (hr : w.ready k = .empty) :
      Moves w (.timeout k) { w with
          handlers :=
            Function.update w.handlers k (.installing .timedOut i) } []
  | setArk {k : Nat} {i : Install E}
      (h : w.handlers k = .installing .bound i) (ha : w.arkSigner = none) :
      Moves w (.setArk k) { w with
          arkSigner := some i.arkSigner
          handlers := Function.update w.handlers k (.installing .arkSet i) } []
  | publish {k : Nat} {i : Install E}
      (h : w.handlers k = .installing .arkSet i) (hi : w.identity = none) :
      Moves w (.setIdentity k) { w with
          identity := some i.identity
          handlers := Function.update w.handlers k .published }
        [.published k i.identity]
  | leave {k : Nat} {a : Act} {new : List (Event E)}
      (h : Leaves w k a new) :
      Moves w a { w with
          gate := if w.gate = some k then none else w.gate
          ready := Function.update w.ready k (w.ready k).dropReceiver
          handlers := Function.update w.handlers k .done } new
  | ready (h : w.thread = .starting) :
      Moves w (.runtime true) { w with thread := .receiving } []
  | noRuntime (h : w.thread = .starting) :
      Moves w (.runtime false) { w with thread := .failing none } []
  | receive {job : SignerJob E} (h : w.thread = .receiving)
      (hw : w.work = some job) :
      Moves w .receive { w with work := none, thread := .binding job }
        [.received job]
  | bind {job : SignerJob E} (h : w.thread = .binding job) :
      Moves w (.bind (.ok ())) { w with thread := .reporting job } []
  | bindFailed {job : SignerJob E} {text : String}
      (h : w.thread = .binding job) (hr : w.ready job.ready = .empty) :
      Moves w (.bind (.error text)) { w with
          thread := .failing (some job)
          ready := Function.update w.ready job.ready
            (.sent (.error text)) } []
  | bindUnheard {job : SignerJob E} {text : String}
      (h : w.thread = .binding job) (hr : w.ready job.ready ≠ .empty) :
      Moves w (.bind (.error text)) { w with thread := .failing (some job) } []
  | report {job : SignerJob E} (h : w.thread = .reporting job)
      (hr : w.ready job.ready = .empty) :
      Moves w .report { w with
          thread := .serving job
          ready := Function.update w.ready job.ready (.sent (.ok ())) } []
  | reportUnheard {job : SignerJob E} (h : w.thread = .reporting job)
      (hr : w.ready job.ready ≠ .empty) :
      Moves w .report { w with thread := .failing (some job) } []
  | stop {job : SignerJob E} (h : w.thread = .serving job) :
      Moves w .stop { w with thread := .failing (some job) } []
  | exit {received : Option (SignerJob E)}
      (h : w.thread = .failing received) (hw : w.work = none) :
      Moves w .exit { w with thread := .exited received } []
  | exitQueued {received : Option (SignerJob E)} {job : SignerJob E}
      (h : w.thread = .failing received) (hw : w.work = some job) :
      Moves w .exit { w with
          work := none
          thread := .exited received
          ready := Function.update w.ready job.ready
            (w.ready job.ready).dropSender } []

theorem send_cases (w : World E) (k : Nat) (result : Except String Unit) :
    (w.ready k = .empty ∧
      w.send k result = (w.setReady k (.sent result), true)) ∨
    (w.ready k ≠ .empty ∧ w.send k result = (w, false)) := by
  rw [World.send]
  split
  · next h => exact .inl ⟨h, rfl⟩
  · next h => exact .inr ⟨h, rfl⟩

theorem step_moves (w : World E) (a : Act) :
    Moves w a (w.step a).1 (w.step a).2 := by
  cases a with
  | setup settings =>
      simp only [World.step, World.stepSetup]
      split
      · next h => exact .refuse h
      · next h => exact .start h
  | lock k =>
      simp only [World.step, World.stepLock]
      split
      · next h =>
          split
          · next hg =>
              exact .leave (.busy h (by simpa [← Option.isSome_iff_ne_none]))
          · next hg => exact .lock h (by simpa using hg)
      · exact .stay
  | check k =>
      simp only [World.step, World.stepCheck]
      split
      · next h =>
          split
          · next hi =>
              exact .leave
                (.conflict h (by simpa [← Option.isSome_iff_ne_none]))
          · next hi =>
              have hnone : w.identity = none := by simpa using hi
              split
              · next hn => exact .leave (.noNsm h hnone (by simpa using hn))
              · next hn =>
                  split
                  · next hr => exact .leave (.noRequest h hnone hr)
                  · next hr => exact .ask h hnone (by simpa using hn) hr
      · exact .stay
  | kms k answer =>
      simp only [World.step, World.stepKms]
      split
      · next h =>
          split
          · next hr => exact .leave (.noRoot h hr)
          · next hr =>
              split
              · next hb => exact .leave (.noInstall h hr hb)
              · next hb => exact .install h hr hb
      · exact .stay
  | submit k =>
      simp only [World.step, World.stepSubmit]
      split
      · next h =>
          split
          · next hp =>
              refine .leave (.noPlace h ?_)
              simpa [← Option.isSome_iff_ne_none] using hp
          · next hp =>
              simp only [Bool.or_eq_true, not_or, Bool.not_eq_true,
                Option.isSome_eq_false_iff, Option.isNone_iff_eq_none] at hp
              exact .submit h hp.1 hp.2
      · exact .stay
  | poll k =>
      simp only [World.step, World.stepPoll]
      split
      · next h =>
          split
          · next hr => exact .confirm h hr
          · next hr => exact .leave (.notBound h (.inr ⟨_, hr⟩))
          · next hr => exact .leave (.notBound h (.inl hr))
          · exact .stay
      · exact .stay
  | timeout k =>
      simp only [World.step, World.stepTimeout]
      split
      · next h =>
          split
          · next hr => exact .timeout h hr
          · exact .stay
      · exact .stay
  | giveUp k =>
      simp only [World.step, World.stepGiveUp]
      split
      · next h => exact .leave (.gaveUp h)
      · exact .stay
  | setArk k =>
      simp only [World.step, World.stepSetArk]
      split
      · next h =>
          split
          · next ha =>
              exact .leave
                (.arkTaken h (by simpa [← Option.isSome_iff_ne_none]))
          · next ha => exact .setArk h (by simpa using ha)
      · exact .stay
  | setIdentity k =>
      simp only [World.step, World.stepSetIdentity]
      split
      · next h =>
          split
          · next hi =>
              exact .leave
                (.identityTaken h (by simpa [← Option.isSome_iff_ne_none]))
          · next hi => exact .publish h (by simpa using hi)
      · exact .stay
  | respond k =>
      simp only [World.step, World.stepRespond]
      split
      · next h => exact .leave (.responded h)
      · exact .stay
  | drop k =>
      simp only [World.step, World.stepDrop]
      split
      · next h => exact .leave (.droppedDeriving h)
      · next h => exact .leave (.droppedWaiting h)
      · exact .stay
  | runtime built =>
      simp only [World.step, World.stepRuntime]
      split
      · next h =>
          cases built with
          | true => exact .ready h
          | false => exact .noRuntime h
      · exact .stay
  | receive =>
      simp only [World.step, World.stepReceive]
      split
      · next h hw => exact .receive h hw
      · exact .stay
  | bind result =>
      simp only [World.step, World.stepBind]
      split
      · next job h =>
          cases result with
          | ok u => exact .bind h
          | error text =>
              rcases send_cases w job.ready (.error text)
                with ⟨hr, heq⟩ | ⟨hr, heq⟩
              · simp only [heq]
                exact .bindFailed h hr
              · simp only [heq]
                exact .bindUnheard h hr
      · exact .stay
  | report =>
      simp only [World.step, World.stepReport]
      split
      · next job h =>
          rcases send_cases w job.ready (.ok ()) with ⟨hr, heq⟩ | ⟨hr, heq⟩
          · simp only [heq]
            exact .report h hr
          · simp only [heq]
            exact .reportUnheard h hr
      · exact .stay
  | stop =>
      simp only [World.step, World.stepStop]
      split
      · next h => exact .stop h
      · exact .stay
  | exit =>
      simp only [World.step, World.stepExit]
      split
      · next h =>
          split
          · next hw => exact .exit h hw
          · next hw => exact .exitQueued h hw
      · exact .stay

end

end SapioTee.App
