import SapioTee.Model.Process
import SapioTee.Proofs.Admission
import SapioTee.Proofs.Publication
import SapioTee.Proofs.SignerKeys
import SapioTee.Proofs.SignerNonces

/-!
# The parts of a process, and the process

A run of the process is seen as a run of each of its parts: of setup and the
signer thread, of the prepare route, and, once there is an Ark signer, of
that signer. So what was proved of the parts holds of the process, and what
ties them together is proved here: all Ark calls are on the one signer that
was published, an answer goes to the request it was computed for, and the
permits bound the prepares that are under way.
-/

namespace SapioTee.Process

open Lib

variable {T : Types} {E : App.Enclave T} {w w' : World E}
  {a : Act T} {es new : List (Event E)}

/-! ## The steps -/

/-- An action that is a step of the route itself. -/
def Own : Admission.Act T → Prop
  | .setArk _ | .setIdentity | .complete _ _ => False
  | _ => True

inductive Moves (w : World E) : Act T → World E → List (Event E) → Prop
  | still {a : Act T} : Moves w a w []
  | refused {a : Act T} {reply : Admission.Reply}
      (h : w.admission.arkSignerOf = .error reply) :
      Moves w a w [.refused reply]
  | app (b : App.Act) :
      Moves w (.app b) (w.share (w.app.step b).1)
        ((w.app.step b).2.map .app)
  | admission {b : Admission.Act T} (h : Own b) :
      Moves w (.admission b)
        { w with admission := (w.admission.step b).1 }
        ((w.admission.step b).2.map .admission)
  | leave {request call : Nat} {result : Except Error PrepareResponse}
      (hcall : w.calls request = some call)
      (hresult : w.results call = some result) :
      Moves w (.leave request)
        { w with admission := (w.admission.step
          (.complete request (outcome result))).1 }
        ((w.admission.step (.complete request (outcome result))).2.map
          .admission)
  | tick (nanos : Nat) :
      Moves w (.tick nanos) { w with signer :=
        { w.signer with clock := w.signer.clock + nanos } } []
  | enter {task : Admission.Task T} (htask : task ∈ w.admission.running)
      (hnone : w.calls task.request = none) :
      Moves w (.enter task.request)
        { (w.stepCall task.signer (.prepare task.body)).1 with
          calls := Function.update w.calls task.request (some w.signer.next) }
        (w.stepCall task.signer (.prepare task.body)).2
  | ark {a : Act T} {self : ArkSigner T} {b : SapioTee.Act T}
      (hself : w.admission.arkSignerOf = .ok self)
      (hb : (∃ r, b = .finish r) ∨ ∃ r, b = .cancel r) :
      Moves w a (w.stepCall self b).1 (w.stepCall self b).2
  | owned {a : Act T} {call : Nat} {self : ArkSigner T} {b : SapioTee.Act T}
      (hself : w.owners call = some self)
      (hb : b = .readClock call ∨ b = .sign call ∨
        ∃ entropy draws, b = .reserve call entropy draws) :
      Moves w a (w.stepSigner self b).1 (w.stepSigner self b).2

theorem step_moves (w : World E) (a : Act T) :
    Moves w a (w.step a).1 (w.step a).2 := by
  have howned : ∀ call b, (b = .readClock call ∨ b = .sign call ∨
      ∃ entropy draws, b = .reserve call entropy draws) →
      Moves w a (w.stepOwned call b).1 (w.stepOwned call b).2 := by
    intro call b hb
    unfold World.stepOwned
    split
    · exact .still
    · next self hself => exact .owned hself hb
  have hark : ∀ b, ((∃ r, b = .finish r) ∨ ∃ r, b = .cancel r) →
      Moves w a (w.stepArk b).1 (w.stepArk b).2 := by
    intro b hb
    unfold World.stepArk
    split
    · next reply hreply => exact .refused hreply
    · next self hself => exact .ark hself hb
  cases a with
  | app b => exact .app b
  | admission b =>
      cases b with
      | setArk _ => exact .still
      | setIdentity => exact .still
      | complete _ _ => exact .still
      | _ => exact .admission (by trivial)
  | tick nanos => exact .tick nanos
  | enter request =>
      show Moves w (.enter request) (w.stepEnter request).1
        (w.stepEnter request).2
      unfold World.stepEnter
      split
      · next task hfind hnone =>
          have hreq := List.find?_some hfind
          have heq : task.request = request := eq_of_beq hreq
          subst heq
          exact .enter (List.mem_of_find?_eq_some hfind) hnone
      · exact .still
  | readClock call => exact howned call _ (.inl rfl)
  | reserve call entropy draws =>
      exact howned call _ (.inr (.inr ⟨entropy, draws, rfl⟩))
  | leave request =>
      show Moves w (.leave request) (w.stepLeave request).1
        (w.stepLeave request).2
      unfold World.stepLeave
      split
      · exact .still
      · next result hresult =>
          obtain ⟨call, hcall, hresult⟩ := Option.bind_eq_some_iff.mp hresult
          exact .leave hcall hresult
  | finish request => exact hark _ (.inl ⟨request, rfl⟩)
  | sign call => exact howned call _ (.inr (.inl rfl))
  | cancel request => exact hark _ (.inr ⟨request, rfl⟩)

/-! ## The views -/

def appEvent : Event E → Option (App.Event E)
  | .app e => some e
  | _ => none

def admissionEvent : Event E → Option (Admission.Event T)
  | .admission e => some e
  | _ => none

def signerEvent : Event E → Option (SapioTee.Event T)
  | .signer e => some e
  | _ => none

theorem view_app : Function.IsPartialInv .app (appEvent (E := E)) := by
  intro x e
  cases e <;> simp [appEvent, eq_comm]

theorem view_admission :
    Function.IsPartialInv .admission (admissionEvent (E := E)) := by
  intro x e
  cases e <;> simp [admissionEvent, eq_comm]

theorem view_signer :
    Function.IsPartialInv .signer (signerEvent (E := E)) := by
  intro x e
  cases e <;> simp [signerEvent, eq_comm]

/-- Each step is a step of setup, or nothing to it. -/
theorem Moves.app_view (h : Moves w a w' new) :
    ∃ bs, (App.app E).runFrom w.app bs = (w'.app, new.filterMap appEvent) := by
  have hquiet : ∀ es : List (SapioTee.Event T),
      (es.map Event.signer).filterMap (appEvent (E := E)) = [] :=
    fun es => view_map_none (fun _ => rfl) es
  have hroute : ∀ es : List (Admission.Event T),
      (es.map Event.admission).filterMap (appEvent (E := E)) = [] :=
    fun es => view_map_none (fun _ => rfl) es
  cases h with
  | app b =>
      refine ⟨[b], Prod.ext rfl ?_⟩
      show (w.app.step b).2 ++ [] = _
      rw [List.append_nil]
      exact (view_map view_app _).symm
  | still | refused _ | tick _ => exact ⟨[], rfl⟩
  | admission _ | leave _ _ => exact ⟨[], Prod.ext rfl (hroute _).symm⟩
  | enter _ _ | ark _ _ | owned _ _ =>
      exact ⟨[], Prod.ext rfl (hquiet _).symm⟩

theorem publication_step {k : Nat} {i : App.Install E}
    (h : App.Publication w.app (es.filterMap appEvent) k i) (a : Act T) :
    App.Publication (w.step a).1.app ((es ++ (w.step a).2).filterMap appEvent)
      k i :=
  Machine.stable_of_view (M := process E) (N := App.app E)
    (P := fun v xs => App.Publication v xs k i)
    (fun v _ b hv => hv.step (App.step_moves v b)) (step_moves w a).app_view h

/-- A run of the process is a run of setup and the signer thread. -/
theorem exists_app_run (E : App.Enclave T) (acts : List (Act T)) :
    ∃ bs, (App.app E).state bs = ((process E).state acts).app ∧
      (App.app E).trace bs = ((process E).trace acts).filterMap appEvent :=
  (process E).exists_run_of_view (f := World.app) rfl
    (fun _ a _ _ => (step_moves _ a).app_view)

/-! ## One signer -/

section

variable {v v' : Admission.World T} {b : Admission.Act T}
  {out : List (Admission.Event T)}

/-- Only setup writes the `OnceLock`s. -/
theorem once_of_own (h : Admission.Moves v b v' out)
    (hb : Own b ∨ ∃ request result, b = .complete request result) :
    v'.identity = v.identity ∧ v'.arkSigner = v.arkSigner := by
  cases h with
  | setArk _ | setIdentity =>
      rcases hb with hb | ⟨_, _, hb⟩
      · exact absurd hb id
      · cases hb
  | _ => exact ⟨rfl, rfl⟩

theorem mem_of_remove {request : Nat} {tasks rest : List (Admission.Task T)}
    {task t : Admission.Task T}
    (h : Admission.remove request tasks = some (task, rest)) :
    t ∈ tasks ↔ t = task ∨ t ∈ rest := by
  rw [(Admission.remove_perm h).mem_iff, List.mem_cons]

/-- Where an execution comes from: it was there, or its handler has spawned
it on the signer it read. -/
theorem executions_cases (h : Admission.Moves v b v' out)
    {t : Admission.Task T} (ht : t ∈ v'.executions) :
    t ∈ v.executions ∨ v.arkSignerOf = .ok t.signer := by
  cases h with
  | @spawn task _ hsigner _ =>
      have hmem : t ∈ v.queued ++ [task] ++ v.running := ht
      simp only [List.mem_append, List.mem_singleton] at hmem
      rcases hmem with (hold | rfl) | hold
      · exact .inl (List.mem_append_left _ hold)
      · exact .inr hsigner
      · exact .inl (List.mem_append_right _ hold)
  | @start _ task queued hremove =>
      have hmem : t ∈ queued ++ (v.running ++ [task]) := ht
      refine .inl ?_
      simp only [List.mem_append, List.mem_singleton] at hmem
      rcases hmem with hq | hr | rfl
      · exact List.mem_append_left _ ((mem_of_remove hremove).mpr (.inr hq))
      · exact List.mem_append_right _ hr
      · exact List.mem_append_left _ ((mem_of_remove hremove).mpr (.inl rfl))
  | @complete _ _ _ running _ hremove _ =>
      have hmem : t ∈ v.queued ++ running := ht
      refine .inl ?_
      rcases List.mem_append.mp hmem with hq | hr
      · exact List.mem_append_left _ hq
      · exact List.mem_append_right _ ((mem_of_remove hremove).mpr (.inr hr))
  | _ => exact .inl ht

/-- Who is told that the signer is unavailable has found it so. -/
theorem unavailable_replied (h : Admission.Moves v b v' out) {request : Nat}
    (hmem : .replied request .arkSignerUnavailable ∈ out) :
    v.arkSignerOf = .error .arkSignerUnavailable := by
  cases h with
  | leave hleaves =>
      rw [List.mem_singleton] at hmem
      generalize hevent : Admission.Event.replied request
        .arkSignerUnavailable = event at hmem hleaves
      subst hmem
      cases hleaves with
      | refused _ hsigner =>
          injection hevent with _ hreply
          rw [hreply]
          exact hsigner
      | joined _ =>
          injection hevent with _ hreply
          unfold Admission.joinedReply at hreply
          split at hreply <;> cases hreply
      | _ => cases hevent
  | _ => simp at hmem

end

/-- This is the signer the process has published. -/
def Published (w : World E) (self : ArkSigner T) : Prop :=
  w.app.identity ≠ none ∧ w.app.arkSigner = some self

/-- The Ark routes read what setup wrote, and every clone of a signer is the
one that was published. -/
structure Agreed (w : World E) : Prop where
  identity : w.admission.identity = w.app.identity.isSome
  arkSigner : w.admission.arkSigner = w.app.arkSigner
  tasks : ∀ t ∈ w.admission.executions, Published w t.signer
  owners : ∀ call self, w.owners call = some self → Published w self

theorem Agreed.published (h : Agreed w) {self : ArkSigner T}
    (hself : w.admission.arkSignerOf = .ok self) : Published w self := by
  unfold Admission.World.arkSignerOf at hself
  split at hself
  · next hidentity =>
      split at hself
      · next signer hsigner =>
          injection hself with hself
          rw [h.identity] at hidentity
          rw [h.arkSigner, hself] at hsigner
          exact ⟨Option.isSome_iff_ne_none.mp hidentity, hsigner⟩
      · cases hself
  · cases hself

/-- Setup's writes are for good. -/
theorem Published.app {self : ArkSigner T} (h : Published w self)
    (b : App.Act) : Published (w.share (w.app.step b).1) self := by
  have hmoves := App.step_moves w.app b
  refine ⟨?_, ?_⟩
  · intro hnone
    exact h.1 (hmoves.identity_none hnone)
  · rcases hmoves.ark_cases with hsame | ⟨_, _, hnone, _⟩
    · exact hsame.trans h.2
    · rw [h.2] at hnone
      cases hnone

theorem Agreed.step (h : Agreed w) (hm : Moves w a w' new) : Agreed w' := by
  have hroute : ∀ b : Admission.Act T,
      (Own b ∨ ∃ request result, b = .complete request result) →
      Agreed { w with admission := (w.admission.step b).1 } := by
    intro b hb
    have hmoves := Admission.step_moves w.admission b
    obtain ⟨hidentity, hark⟩ := once_of_own hmoves hb
    refine ⟨hidentity.trans h.identity, hark.trans h.arkSigner, ?_, h.owners⟩
    intro t ht
    rcases executions_cases hmoves ht with hold | hself
    · exact h.tasks t hold
    · exact h.published hself
  have hcall : ∀ self b calls, Published w self →
      Agreed { (w.stepCall self b).1 with calls := calls } := by
    intro self b calls hself
    refine ⟨h.identity, h.arkSigner, h.tasks, ?_⟩
    intro call owner howner
    have hupdate : Function.update w.owners w.signer.next (some self) call
        = some owner := howner
    rw [Function.update_apply] at hupdate
    split at hupdate
    · injection hupdate with hupdate
      rw [← hupdate]
      exact hself
    · exact h.owners call owner hupdate
  cases hm with
  | still | refused _ | tick _ | owned _ _ =>
      exact ⟨h.identity, h.arkSigner, h.tasks, h.owners⟩
  | app b =>
      exact ⟨rfl, rfl, fun t ht => (h.tasks t ht).app b,
        fun call self hself => (h.owners call self hself).app b⟩
  | admission hown => exact hroute _ (.inl hown)
  | leave _ _ => exact hroute _ (.inr ⟨_, _, rfl⟩)
  | @enter task htask _ =>
      exact hcall _ _ _ (h.tasks task (List.mem_append_right _ htask))
  | ark hself _ => exact hcall _ _ w.calls (h.published hself)

theorem agreed (E : App.Enclave T) (acts : List (Act T)) :
    Agreed ((process E).state acts) := by
  refine (process E).run_induct (P := fun w _ => Agreed w) ?_ ?_ acts
  · exact ⟨rfl, rfl, fun t ht => (nomatch ht), fun _ _ h => (nomatch h)⟩
  · intro w es a h
    exact h.step (step_moves w a)

/-- Each step is some steps of that signer. -/
theorem Moves.signer_view (h : Moves w a w' new) (hw : Agreed w)
    {self : ArkSigner T} (hself : ∀ s, Published w s → s = self) :
    ∃ bs, (signer E.crates self).runFrom w.signer bs
      = (w'.signer, new.filterMap signerEvent) := by
  have hquiet : ∀ es : List (App.Event E),
      (es.map Event.app).filterMap signerEvent = [] :=
    fun es => view_map_none (fun _ => rfl) es
  have hroute : ∀ es : List (Admission.Event T),
      (es.map Event.admission).filterMap (signerEvent (E := E)) = [] :=
    fun es => view_map_none (fun _ => rfl) es
  have hsteps : ∀ s b, Published w s →
      (signer E.crates self).runFrom w.signer [b]
        = ((w.signer.step E.crates s b).1,
          ((w.signer.step E.crates s b).2.map Event.signer).filterMap
            (signerEvent (E := E))) := by
    intro s b hs
    rw [hself s hs, view_map view_signer]
    show ((w.signer.step E.crates self b).1,
      (w.signer.step E.crates self b).2 ++ []) = _
    rw [List.append_nil]
  cases h with
  | still | refused _ => exact ⟨[], rfl⟩
  | tick nanos => exact ⟨[.tick nanos], rfl⟩
  | app b => exact ⟨[], Prod.ext rfl (hquiet _).symm⟩
  | admission _ | leave _ _ => exact ⟨[], Prod.ext rfl (hroute _).symm⟩
  | @enter task htask _ =>
      exact ⟨[.prepare task.body],
        hsteps _ _ (hw.tasks task (List.mem_append_right _ htask))⟩
  | @ark _ s b hs _ => exact ⟨[b], hsteps _ _ (hw.published hs)⟩
  | @owned _ call s b hs _ => exact ⟨[b], hsteps _ _ (hw.owners call s hs)⟩

theorem Moves.arkSigner (h : Moves w a w' new) {self : ArkSigner T}
    (hself : w.app.arkSigner = some self) : w'.app.arkSigner = some self := by
  cases h with
  | app b =>
      rcases (App.step_moves w.app b).ark_cases with hsame | ⟨_, _, hnone, _⟩
      · exact hsame.trans hself
      · rw [hself] at hnone
        cases hnone
  | _ => exact hself

/-- Once there is an Ark signer, the run is a run of that signer. -/
theorem exists_signer_run (E : App.Enclave T) (acts : List (Act T))
    {self : ArkSigner T}
    (hself : ((process E).state acts).app.arkSigner = some self) :
    ∃ bs, (signer E.crates self).state bs = ((process E).state acts).signer ∧
      (signer E.crates self).trace bs
        = ((process E).trace acts).filterMap signerEvent := by
  refine (process E).exists_run_of_view (f := World.signer) rfl ?_
  intro pre a post hacts
  refine (step_moves _ a).signer_view (agreed E pre) ?_
  intro s hs
  have hlater := (process E).stable_append
    (P := fun w _ => w.app.arkSigner = some s) hs.2
    (fun bs b ih => (step_moves _ b).arkSigner ih) (a :: post)
  rw [← hacts, hself] at hlater
  exact (Option.some.inj hlater).symm

/-! ## What every Ark call rests on -/

theorem app_sound (E : App.Enclave T) (acts : List (Act T)) :
    App.Sound ((process E).state acts).app
      (((process E).trace acts).filterMap appEvent) := by
  obtain ⟨bs, hstate, htrace⟩ := exists_app_run E acts
  rw [← hstate, ← htrace]
  exact App.sound E bs

/-- Whoever reads an identity also reads a signer. -/
theorem arkSignerOf_ne_unavailable (E : App.Enclave T) (acts : List (Act T)) :
    ((process E).state acts).admission.arkSignerOf
      ≠ .error .arkSignerUnavailable := by
  have hw := agreed E acts
  intro h
  unfold Admission.World.arkSignerOf at h
  split at h
  · next hidentity =>
      split at h
      · cases h
      · next hnone =>
          rw [hw.identity] at hidentity
          rw [hw.arkSigner] at hnone
          obtain ⟨k, i, hp⟩ := (app_sound E acts).told.publication
            (Option.isSome_iff_ne_none.mp hidentity)
          rw [hp.arkSigner] at hnone
          cases hnone
  · cases h

/-- What stands before an event of the process: a signer's step comes after a
publication, and nobody is told that the signer is unavailable. -/
def Founded (pre : List (Event E)) : Event E → Prop
  | .signer _ => ∃ k text, .app (.published k text) ∈ pre
  | .refused reply => reply ≠ .arkSignerUnavailable
  | .admission (.replied _ reply) => reply ≠ .arkSignerUnavailable
  | _ => True

theorem exists_published (E : App.Enclave T) (acts : List (Act T))
    (h : ((process E).state acts).app.identity ≠ none) :
    ∃ k text, .app (.published k text) ∈ (process E).trace acts := by
  obtain ⟨k, i, hp⟩ := (app_sound E acts).told.publication h
  exact ⟨k, i.identity, (mem_view view_app).mp hp.published⟩

/-- There is one publication to find in a run. -/
theorem published_unique {w : App.World E} {es : List (App.Event E)}
    (ht : App.Told w es) {k j : Nat} {s t : String}
    (hs : .published k s ∈ es) (hj : .published j t ∈ es) :
    k = j ∧ s = t := by
  have hmark : ∀ {k : Nat} {s : String}, .published k s ∈ es →
      (k, s) ∈ App.publications es :=
    fun h => List.mem_filterMap.mpr ⟨_, h, rfl⟩
  have hone : (App.publications es).length ≤ 1 := by
    rw [← List.length_map (f := Prod.snd), ht.published]
    cases w.identity with
    | none => exact Nat.zero_le _
    | some _ => exact Nat.le_refl _
  have hk := hmark hs
  have hj := hmark hj
  match hlist : App.publications es with
  | [] =>
      rw [hlist] at hk
      cases hk
  | [x] =>
      rw [hlist, List.mem_singleton] at hk hj
      rw [← hj] at hk
      injection hk with h1 h2
      exact ⟨h1, h2⟩
  | _ :: _ :: _ =>
      rw [hlist] at hone
      simp at hone

theorem founded (E : App.Enclave T) (acts : List (Act T)) :
    Always Founded ((process E).trace acts) := by
  refine (process E).run_induct_reach
    (P := fun _ es => Always Founded es) (always_nil _) ?_ acts
  intro acts a hes
  have hw := agreed E acts
  have havailable := arkSignerOf_ne_unavailable E acts
  refine hes.append ?_
  intro pre e post hnew
  have hmem : e ∈ ((process E).step ((process E).state acts) a).2 := by
    rw [hnew]
    exact List.mem_append_right _ List.mem_cons_self
  have hmoves := step_moves ((process E).state acts) a
  have hsigner : ∀ s (es : List (SapioTee.Event T)),
      Published ((process E).state acts) s → e ∈ es.map Event.signer →
      Founded ((process E).trace acts ++ pre) e := by
    intro s es hs he
    obtain ⟨x, -, rfl⟩ := List.mem_map.mp he
    obtain ⟨k, text, hpublished⟩ := exists_published E acts hs.1
    exact ⟨k, text, List.mem_append_left _ hpublished⟩
  have hroute : ∀ b, e ∈ ((((process E).state acts).admission.step b).2.map
      Event.admission) → Founded ((process E).trace acts ++ pre) e := by
    intro b he
    obtain ⟨x, hx, rfl⟩ := List.mem_map.mp he
    cases x with
    | replied request reply =>
        rintro rfl
        exact havailable (unavailable_replied
          (Admission.step_moves _ b) hx)
    | _ => trivial
  change e ∈ (((process E).state acts).step a).2 at hmem
  generalize (((process E).state acts).step a).1 = w',
    (((process E).state acts).step a).2 = new at hmoves hmem
  cases hmoves with
  | still | tick _ => cases hmem
  | refused h =>
      rw [List.mem_singleton.mp hmem]
      rintro rfl
      exact havailable h
  | app b =>
      obtain ⟨x, -, rfl⟩ := List.mem_map.mp hmem
      trivial
  | admission _ => exact hroute _ hmem
  | leave _ _ => exact hroute _ hmem
  | @enter task htask _ =>
      exact hsigner _ _ (hw.tasks task (List.mem_append_right _ htask)) hmem
  | ark hs _ => exact hsigner _ _ (hw.published hs) hmem
  | owned hs _ => exact hsigner _ _ (hw.owners _ _ hs) hmem

/-- An identity that is there was made by one request, and has been
published. -/
theorem exists_publication (E : App.Enclave T) (acts : List (Act T))
    {text : String} (h : ((process E).state acts).app.identity = some text) :
    ∃ k i, App.Publication ((process E).state acts).app
        (((process E).trace acts).filterMap appEvent) k i ∧
      i.identity = text := by
  obtain ⟨k, i, hp⟩ := (app_sound E acts).told.publication (by simp [h])
  have hidentity := hp.identity
  rw [h] at hidentity
  exact ⟨k, i, hp, (Option.some.inj hidentity).symm⟩

/-- Behind an event of the signer are one publication, which came before it,
and one run of the signer installed with it. -/
theorem signer_publication (E : App.Enclave T) (acts : List (Act T))
    {pre post : List (Event E)} {e : SapioTee.Event T}
    (h : (process E).trace acts = pre ++ .signer e :: post) :
    ∃ k i, App.Publication ((process E).state acts).app
        (((process E).trace acts).filterMap appEvent) k i ∧
      .app (.published k i.identity) ∈ pre ∧
      ∃ bs, (signer E.crates i.arkSigner).state bs
          = ((process E).state acts).signer ∧
        (signer E.crates i.arkSigner).trace bs
          = ((process E).trace acts).filterMap signerEvent := by
  have htold := (app_sound E acts).told
  obtain ⟨k, text, hpublished⟩ := founded E acts pre _ post h
  have hview : .published k text
      ∈ ((process E).trace acts).filterMap appEvent := by
    rw [mem_view view_app, h]
    exact List.mem_append_left _ hpublished
  have hidentity : ((process E).state acts).app.identity ≠ none := by
    intro hnone
    have hnil := htold.published
    rw [hnone, Option.toList_none, List.map_eq_nil_iff] at hnil
    have hmem : (k, text) ∈ App.publications
        (((process E).trace acts).filterMap appEvent) :=
      List.mem_filterMap.mpr ⟨_, hview, rfl⟩
    rw [hnil] at hmem
    cases hmem
  obtain ⟨j, i, hp⟩ := htold.publication hidentity
  obtain ⟨rfl, rfl⟩ := published_unique htold hp.published hview
  exact ⟨j, i, hp, hpublished, exists_signer_run E acts hp.arkSigner⟩

/-- Every Ark call of a process is on one signer: none of them takes a step
before a publication, no client is told that the signer is unavailable, and
whatever the signer has done is a run of the signer that was built, with the
published identity, from the root of one setup request. -/
theorem one_signer (E : App.Enclave T) (acts : List (Act T)) :
    Always Founded ((process E).trace acts) ∧
    ∀ e, .signer e ∈ (process E).trace acts →
      ∃ k settings root self,
        App.OneRequest ((process E).state acts).app
          (((process E).trace acts).filterMap appEvent) k settings root ∧
        ((process E).state acts).app.arkSigner = some self ∧
        ArkSigner.new E.crates (evaluators E.oracles) root = .ok self ∧
        ∃ bs, (signer E.crates self).state bs
            = ((process E).state acts).signer ∧
          (signer E.crates self).trace bs
            = ((process E).trace acts).filterMap signerEvent := by
  refine ⟨founded E acts, ?_⟩
  intro e he
  obtain ⟨pre, post, hcut⟩ := List.append_of_mem he
  obtain ⟨k, i, hp, -, hrun⟩ := signer_publication E acts hcut
  exact ⟨k, i.settings, i.root, i.arkSigner,
    hp.oneRequest (app_sound E acts).told, hp.arkSigner, i.arkSigner_eq, hrun⟩

/-- A release goes back to one publication, and to a prepare on the signer
installed with it, whose root is that of the publication. -/
theorem release_publication (E : App.Enclave T)
    (horacle : ∀ root registry oracle,
      E.oracles.oracleNew root registry = .ok oracle →
      E.oracles.oraclePublicRoot oracle = E.crates.fromPriv root)
    (acts : List (Act T)) {pre post : List (Event E)} {call : Nat}
    {request : FinishRequest} {response : FinishResponse}
    (h : (process E).trace acts
      = pre ++ .signer (.finished call request (.ok response)) :: post) :
    ∃ k i, App.Publication ((process E).state acts).app
        (((process E).trace acts).filterMap appEvent) k i ∧
      .app (.published k i.identity) ∈ pre ∧
      ∃ prepare, Backed E.crates i.arkSigner (pre.filterMap signerEvent) call
          response prepare ∧
        prepare.key.root = E.oracles.oraclePublicRoot i.oracle := by
  obtain ⟨k, i, hp, hpublished, bs, -, htrace⟩ := signer_publication E acts h
  rw [h, List.filterMap_append] at htrace
  obtain ⟨prepare, hbacked⟩ :=
    backed_of_reached (reached_run E.crates i.arkSigner bs) htrace
  refine ⟨k, i, hp, hpublished, prepare, hbacked, ?_⟩
  obtain ⟨grant, hadmitted⟩ := hbacked.admitted
  obtain ⟨registry, -, hbuilt⟩ := bind_ok i.oracle_eq
  rw [hadmitted.root, (publicRoot_of_new i.arkSigner_eq).2]
  exact (horacle _ _ _ (outside_ok hbuilt)).symm

/-- A share that the process has released was authorized under the root it
had published by then. The published identity, the oracle behind it and the
installed signer are those of one setup request; that signer made the share
with the nonce of a prepare that passed every check, and the root this prepare
names is the identity's. -/
theorem released_under_identity (E : App.Enclave T)
    (horacle : ∀ root registry oracle,
      E.oracles.oracleNew root registry = .ok oracle →
      E.oracles.oraclePublicRoot oracle = E.crates.fromPriv root)
    (acts : List (Act T)) {pre post : List (Event E)} {call : Nat}
    {request : FinishRequest} {response : FinishResponse}
    (h : (process E).trace acts
      = pre ++ .signer (.finished call request (.ok response)) :: post) :
    ∃ k, ∃ i : App.Install E,
      App.OneRequest ((process E).state acts).app
        (((process E).trace acts).filterMap appEvent) k i.settings i.root ∧
      ((process E).state acts).app.identity = some i.identity ∧
      ((process E).state acts).app.arkSigner = some i.arkSigner ∧
      ((process E).state acts).app.thread.job = some ⟨i.oracle, k⟩ ∧
      .app (.published k i.identity) ∈ pre ∧
      E.toJson (App.identityOf E i.oracle (some i.settings))
        = .ok i.identity ∧
      ∃ prepare, Backed E.crates i.arkSigner (pre.filterMap signerEvent) call
          response prepare ∧
        prepare.key.root
          = (App.identityOf E i.oracle (some i.settings)).xpub := by
  obtain ⟨k, i, hp, hpublished, hbacked⟩ :=
    release_publication E horacle acts h
  exact ⟨k, i, hp.oneRequest (app_sound E acts).told, hp.identity,
    hp.arkSigner, hp.received, hpublished, i.identity_eq, hbacked⟩

/-- A status proof under the root that the symbolic setup derives. -/
def symbolicPrepare : PrepareRequest symbolicTypes where
  protocol := signingProtocol
  key := ⟨⟨hashOf 1, [], []⟩, [hashOf (networkTag .regtest)], [hashOf 1]⟩
  action := .ownership ⟨0, .status⟩
  userNonce := "nonce"

/-- A setup, a prepare through the route, and the finish of its session. -/
def symbolicRun : List (Act symbolicTypes) :=
  Symbolic.publishedRun.map .app ++
    [.admission .arrive, .admission (.extract 0 (.ok symbolicPrepare)),
      .admission (.start 0), .enter 0, .readClock 0, .reserve 0 0 [hashOf 5],
      .leave 0, .admission (.wake 0), .finish (Symbolic.finishRequest 5),
      .sign 1]

def releases : Event symbolicEnclave → Bool
  | .signer (.finished _ _ (.ok _)) => true
  | _ => false

theorem symbolicRun_releases :
    ((process symbolicEnclave).trace symbolicRun).getLast?.any releases
      = true := by
  decide +kernel

theorem oraclePublicRoot_symbolic (root : symbolicTypes.Xpriv)
    (registry : List WasmEvaluator) {oracle : symbolicOracles.ProgramOracle}
    (h : symbolicOracles.oracleNew root registry = .ok oracle) :
    symbolicOracles.oraclePublicRoot oracle = root := by
  have hpair : (root, registry) = oracle := Except.ok.inj h
  exact (congrArg Prod.fst hpair).symm

theorem released_under_identity_symbolicRun :
    ∃ k, ∃ i : App.Install symbolicEnclave, ∃ pre call request response prepare,
      (process symbolicEnclave).trace symbolicRun
        = pre ++ [.signer (.finished call request (.ok response))] ∧
      .app (.published k i.identity) ∈ pre ∧
      Backed symbolicEnclave.crates i.arkSigner (pre.filterMap signerEvent)
        call response prepare ∧
      prepare.key.root
        = (App.identityOf symbolicEnclave i.oracle (some i.settings)).xpub := by
  obtain ⟨e, hlast, he⟩ := (Option.any_eq_true _ _).mp
    symbolicRun_releases
  obtain ⟨pre, htrace⟩ := List.getLast?_eq_some_iff.mp hlast
  match e, he with
  | .signer (.finished call request (.ok response)), _ =>
      obtain ⟨k, i, -, -, -, -, hpublished, -, prepare, hbacked, hroot⟩ :=
        released_under_identity symbolicEnclave
          (fun root registry _ h => oraclePublicRoot_symbolic root registry h)
          symbolicRun htrace
      exact ⟨k, i, pre, call, request, response, prepare, htrace, hpublished,
        hbacked, hroot⟩

end SapioTee.Process
