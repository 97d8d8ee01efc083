import Mathlib.Data.Set.Card
import SapioTee.Proofs.Process

/-!
# Which call answers which request

A request of the prepare route spawns at most one task, its task makes at
most one call of the signer, and the call keeps the body the task was spawned
with. So what a client is answered is what its own prepare returned, whichever
other requests, drops and deadlines come in between. A call that has not
returned keeps its task running, and with it the permit, so the permits bound
the evaluations under way in the whole process.
-/

namespace SapioTee.Process

open Lib

variable {T : Types} {E : App.Enclave T}

/-! ## The route -/

/-- What a step of the route can do to one handler. -/
inductive HandlerMoves (v : Admission.World T) (b : Admission.Act T)
    (new : List (Admission.Event T)) (r : Nat) :
    Admission.Handler → Admission.Handler → Prop
  | same {x : Admission.Handler} : HandlerMoves v b new r x x
  | arrived {x y : Admission.Handler} (hb : b = .arrive) (hr : r = v.next)
      (hy : y = .extracting ∨ y = .gone) : HandlerMoves v b new r x y
  | left {x : Admission.Handler} (hx : x ≠ .absent) :
      HandlerMoves v b new r x .gone
  | spawned {task : Admission.Task T} (hr : task.request = r)
      (hnew : new = [.spawned task]) :
      HandlerMoves v b new r .extracting .joining
  | joined {result : Option (Except Error PrepareResponse)}
      (hb : b = .complete r result) :
      HandlerMoves v b new r .joining (.joined result)

theorem handlerMoves_update {v : Admission.World T} {b : Admission.Act T}
    {new : List (Admission.Event T)} {k r : Nat} {x : Admission.Handler}
    (h : HandlerMoves v b new k (v.handlers k) x) :
    HandlerMoves v b new r (v.handlers r)
      (Function.update v.handlers k x r) := by
  rw [Function.update_apply]
  split
  · next heq =>
      subst heq
      exact h
  · exact .same

theorem leaves_present {v : Admission.World T} {k : Nat}
    {b : Admission.Act T} {event : Admission.Event T}
    (h : Admission.Leaves v k b event) : v.handlers k ≠ .absent := by
  cases h with
  | rejected h | refused h _ | shed h _ _ | joined h =>
      rw [h]
      nofun
  | deadline h | dropped h => exact h

section

variable {v v' : Admission.World T} {b : Admission.Act T}
  {out : List (Admission.Event T)}

theorem handlerMoves_step (h : Admission.Moves v b v' out) (r : Nat) :
    HandlerMoves v b out r (v.handlers r) (v'.handlers r) := by
  cases h with
  | setArk _ | setIdentity | still _ | start _ => exact .same
  | overloaded => exact handlerMoves_update (.arrived rfl rfl (.inr rfl))
  | arrive => exact handlerMoves_update (.arrived rfl rfl (.inl rfl))
  | leave hleaves =>
      exact handlerMoves_update (.left (leaves_present hleaves))
  | spawn hextracting _ _ =>
      refine handlerMoves_update ?_
      rw [hextracting]
      exact .spawned rfl rfl
  | complete _ hhandlers =>
      rcases hhandlers with rfl | ⟨hjoining, rfl⟩
      · exact .same
      · refine handlerMoves_update ?_
        rw [hjoining]
        exact .joined rfl

theorem next_step (h : Admission.Moves v b v' out) :
    v.next ≤ v'.next ∧ (b = .arrive → v'.next = v.next + 1) := by
  cases h with
  | overloaded | arrive => exact ⟨Nat.le_succ _, fun _ => rfl⟩
  | still hb => exact ⟨Nat.le_refl _, fun h => absurd h hb⟩
  | leave hleaves =>
      refine ⟨Nat.le_refl _, ?_⟩
      rintro rfl
      cases hleaves
  | _ => exact ⟨Nat.le_refl _, nofun⟩

/-- Only a handler that has its body spawns, on that body, and it then
waits. -/
theorem spawned_event (h : Admission.Moves v b v' out)
    {task : Admission.Task T} (hmem : .spawned task ∈ out) :
    b = .extract task.request (.ok task.body) ∧
      v.handlers task.request = .extracting ∧
      v'.handlers task.request = .joining ∧ out = [.spawned task] := by
  cases h with
  | spawn hextracting _ _ =>
      injection List.mem_singleton.mp hmem with heq
      subst heq
      exact ⟨rfl, hextracting, Function.update_self _ _ _, rfl⟩
  | leave hleaves =>
      have hquiet := hleaves.quiet.1
      rw [← List.mem_singleton.mp hmem] at hquiet
      cases hquiet
  | _ => simp at hmem

end

/-- Requests are numbered as they arrive, and a request spawns once. -/
structure Numbered (v : Admission.World T) (es : List (Admission.Event T)) :
    Prop where
  unborn : ∀ r, v.next ≤ r → v.handlers r = .absent
  spawned : ∀ task, .spawned task ∈ es →
    task.request < v.next ∧ v.handlers task.request ≠ .extracting
  once : ((Admission.spawnedTasks es).map Admission.Task.request).Nodup

theorem mem_spawnedTasks {es : List (Admission.Event T)}
    {task : Admission.Task T} :
    task ∈ Admission.spawnedTasks es ↔ .spawned task ∈ es := by
  rw [Admission.spawnedTasks, List.mem_filterMap]
  constructor
  · rintro ⟨e, he, hmark⟩
    cases e with
    | spawned t =>
        injection hmark with hmark
        rwa [hmark] at he
    | _ => cases hmark
  · exact fun h => ⟨_, h, rfl⟩

theorem Numbered.step {v : Admission.World T}
    {es : List (Admission.Event T)} (h : Numbered v es)
    (b : Admission.Act T) :
    Numbered (v.step b).1 (es ++ (v.step b).2) := by
  have hstep := Admission.step_moves v b
  obtain ⟨hnext, harrive⟩ := next_step hstep
  have hpresent : ∀ {task}, .spawned task ∈ (v.step b).2 →
      task.request < v.next := by
    intro task hnew
    obtain ⟨-, hold, -, -⟩ := spawned_event hstep hnew
    by_contra hle
    rw [h.unborn _ (Nat.le_of_not_lt hle)] at hold
    cases hold
  refine ⟨?_, ?_, ?_⟩
  · intro r hr
    have hmoves := handlerMoves_step hstep r
    have hold := h.unborn r (by omega)
    rw [hold] at hmoves
    generalize (v.step b).1.handlers r = y at hmoves
    cases hmoves with
    | same => rfl
    | arrived hb hr' _ =>
        have hmore := harrive hb
        omega
    | left hx => exact absurd rfl hx
  · intro task hmem
    rcases List.mem_append.mp hmem with hold | hnew
    · obtain ⟨hlt, hne⟩ := h.spawned task hold
      refine ⟨by omega, ?_⟩
      have hmoves := handlerMoves_step hstep task.request
      intro hextracting
      rw [hextracting] at hmoves
      generalize hx : v.handlers task.request = x at hmoves
      cases hmoves with
      | same => exact hne hx
      | arrived _ hr _ => omega
    · obtain ⟨-, -, hjoining, -⟩ := spawned_event hstep hnew
      refine ⟨?_, ?_⟩
      · have hlt := hpresent hnew
        omega
      · rw [hjoining]
        nofun
  · rw [Admission.spawnedTasks_append, List.map_append]
    by_cases hany : ∃ task, .spawned task ∈ (v.step b).2
    · obtain ⟨task, hnew⟩ := hany
      obtain ⟨-, hold, -, hevents⟩ := spawned_event hstep hnew
      rw [hevents]
      refine List.nodup_append.mpr ⟨h.once, List.nodup_singleton _, ?_⟩
      intro x hx y hy heq
      obtain ⟨t, ht, rfl⟩ := List.mem_map.mp hx
      have hy' : y = task.request := List.mem_singleton.mp hy
      have hne := (h.spawned t (mem_spawnedTasks.mp ht)).2
      rw [heq, hy'] at hne
      exact hne hold
    · have hnone : Admission.spawnedTasks (v.step b).2 = [] := by
        refine List.eq_nil_iff_forall_not_mem.mpr ?_
        intro task ht
        exact hany ⟨task, mem_spawnedTasks.mp ht⟩
      rw [hnone, List.map_nil, List.append_nil]
      exact h.once

theorem numbered (acts : List (Admission.Act T)) :
    Numbered ((Admission.admission T).state acts)
      ((Admission.admission T).trace acts) := by
  refine (Admission.admission T).run_induct (P := Numbered) ?_ ?_ acts
  · exact ⟨fun _ _ => rfl, fun _ hmem => (nomatch hmem), List.nodup_nil⟩
  · intro v es b h
    exact h.step b

/-- Setup's writes, as the route's own. -/
theorem runFrom_writes {v : Admission.World T} {identity : Bool}
    {arkSigner : Option (ArkSigner T)}
    (hidentity : v.identity = true → identity = true)
    (hark : ∀ s, v.arkSigner = some s → arkSigner = some s) :
    (Admission.admission T).runFrom v
        ((if identity then [.setIdentity] else []) ++
          arkSigner.toList.map .setArk)
      = ({ v with identity := identity, arkSigner := arkSigner }, []) := by
  have hfirst : (Admission.admission T).runFrom v
      (if identity then [.setIdentity] else [])
      = ({ v with identity := identity }, []) := by
    cases identity with
    | true => rfl
    | false =>
        have hold : v.identity = false := by
          rw [Bool.eq_false_iff]
          exact fun h => nomatch hidentity h
        show (v, []) = ({ v with identity := false }, [])
        rw [← hold]
  have hsecond : ∀ u : Admission.World T, u.arkSigner = v.arkSigner →
      (Admission.admission T).runFrom u (arkSigner.toList.map .setArk)
        = ({ u with arkSigner := arkSigner }, []) := by
    intro u hu
    cases harkSigner : arkSigner with
    | none =>
        have hold : u.arkSigner = none := by
          rw [hu]
          cases hv : v.arkSigner with
          | none => rfl
          | some s =>
              rw [hark s hv] at harkSigner
              cases harkSigner
        show (u, []) = ({ u with arkSigner := none }, [])
        rw [← hold]
    | some s =>
        have hwrite : u.arkSigner.or (some s) = some s := by
          rw [hu]
          cases hv : v.arkSigner with
          | none => rfl
          | some t =>
              rw [hark t hv] at harkSigner
              exact harkSigner
        show ({ u with arkSigner := u.arkSigner.or (some s) }, []) = _
        rw [hwrite]
  have hboth := hsecond { v with identity := identity } rfl
  rw [Machine.runFrom_append, hfirst]
  simp only [hboth, List.append_nil]

/-- Each step is some steps of the route: a write of setup's is its copy. -/
theorem Moves.admission_view {w w' : World E} {a : Act T}
    {new : List (Event E)} (h : Moves w a w' new) (hw : Agreed w) :
    ∃ bs, (Admission.admission T).runFrom w.admission bs
      = (w'.admission, new.filterMap admissionEvent) := by
  have hsigner : ∀ es : List (SapioTee.Event T),
      (es.map Event.signer).filterMap (admissionEvent (E := E)) = [] :=
    fun es => view_map_none (fun _ => rfl) es
  have hquiet : ∀ es : List (App.Event E),
      (es.map Event.app).filterMap admissionEvent = [] :=
    fun es => view_map_none (fun _ => rfl) es
  have hroute : ∀ b, (Admission.admission T).runFrom w.admission [b]
      = ((w.admission.step b).1, ((w.admission.step b).2.map
        Event.admission).filterMap (admissionEvent (E := E))) := by
    intro b
    rw [view_map view_admission]
    show ((w.admission.step b).1, (w.admission.step b).2 ++ []) = _
    rw [List.append_nil]
  cases h with
  | still | refused _ | tick _ => exact ⟨[], rfl⟩
  | admission _ => exact ⟨_, hroute _⟩
  | leave _ _ => exact ⟨_, hroute _⟩
  | enter _ _ | ark _ _ | owned _ _ =>
      exact ⟨[], Prod.ext rfl (hsigner _).symm⟩
  | app b =>
      refine ⟨_, (@runFrom_writes T w.admission
        (w.app.step b).1.identity.isSome (w.app.step b).1.arkSigner
        ?_ ?_).trans (Prod.ext rfl (hquiet _).symm)⟩
      · intro hsome
        rw [hw.identity] at hsome
        rw [Option.isSome_iff_ne_none] at hsome ⊢
        exact fun hnone =>
          hsome ((App.step_moves w.app b).identity_none hnone)
      · intro s hs
        rw [hw.arkSigner] at hs
        exact (Moves.app b : Moves w _ _ _).arkSigner hs

/-- A run of the process is a run of the prepare route. -/
theorem exists_admission_run (E : App.Enclave T) (acts : List (Act T)) :
    ∃ bs, (Admission.admission T).state bs
        = ((process E).state acts).admission ∧
      (Admission.admission T).trace bs
        = ((process E).trace acts).filterMap admissionEvent :=
  (process E).exists_run_of_view (f := World.admission) rfl
    (fun pre a _ _ => (step_moves _ a).admission_view (agreed E pre))

/-! ## The calls -/

/-- What one step of the signer does to an older call and to what that call
has returned. -/
inductive CallEffect (new : List (SapioTee.Event T)) (c : Nat)
    (before after : Option (Except Error PrepareResponse)) :
    Call T → Call T → Prop
  | same {x : Call T} (h : after = before) :
      CallEffect new c before after x x
  | timed {body : PrepareRequest T} {grant : Grant T} {now : Instant}
      (h : after = before) :
      CallEffect new c before after (.authorized body grant)
        (.timed body grant now)
  | refused {body : PrepareRequest T} {grant : Grant T} {now : Instant}
      {error : Error} (hnew : .refused c body error ∈ new)
      (h : after = some (.error error)) :
      CallEffect new c before after (.timed body grant now) .returned
  | prepared {body : PrepareRequest T} {grant : Grant T} {now : Instant}
      {response : PrepareResponse} {entry : Pending T}
      (hnew : .prepared c body now response entry ∈ new)
      (h : after = some (.ok response)) :
      CallEffect new c before after (.timed body grant now) .returned
  | finished {request : FinishRequest} {entry : Pending T}
      (h : after = before) :
      CallEffect new c before after (.holding request entry) .returned

theorem callEffect_of_moves {C : Crates T} {self : ArkSigner T}
    {s s' : SapioTee.World T} {b : SapioTee.Act T}
    {new : List (SapioTee.Event T)} (h : SapioTee.Moves C self s b s' new)
    {c : Nat} (hc : c ≠ s.next)
    (results : Nat → Option (Except Error PrepareResponse)) :
    CallEffect new c (results c) (record results new c) (s.calls c)
      (s'.calls c) := by
  have henter : ∀ {m x}, ((s.setPending m).enter x).calls c = s.calls c :=
    fun {m x} => World.enter_calls_ne (w := s.setPending m) x hc
  cases h with
  | tick nanos => exact .same rfl
  | stay h => exact .same rfl
  | refuse h =>
      rw [World.enter_calls_ne _ _ hc]
      exact .same (Function.update_of_ne hc _ _)
  | authorize h =>
      rw [World.enter_calls_ne _ _ hc]
      exact .same rfl
  | @readClock call request grant h =>
      by_cases heq : c = call
      · subst heq
        rw [World.setCall_calls_self, h]
        exact .timed rfl
      · rw [World.setCall_calls_ne _ _ heq]
        exact .same rfl
  | @reserveRefused call _ _ request grant now error pending h _ =>
      by_cases heq : c = call
      · subst heq
        rw [World.setCall_calls_self, h]
        exact .refused List.mem_cons_self (Function.update_self _ _ _)
      · rw [World.setCall_calls_ne _ _ heq]
        exact .same (Function.update_of_ne heq _ _)
  | @reserve call _ _ request grant now response entry h _ =>
      by_cases heq : c = call
      · subst heq
        rw [World.setCall_calls_self, h]
        exact .prepared List.mem_cons_self (Function.update_self _ _ _)
      · rw [World.setCall_calls_ne _ _ heq]
        exact .same (Function.update_of_ne heq _ _)
  | finishPoisoned h =>
      rw [World.enter_calls_ne _ _ hc]
      exact .same rfl
  | finishMissing h =>
      rw [henter]
      exact .same rfl
  | finishTake h =>
      rw [henter]
      exact .same rfl
  | @signRefused call request entry error h _ =>
      by_cases heq : c = call
      · subst heq
        rw [World.setCall_calls_self, h]
        exact .finished rfl
      · rw [World.setCall_calls_ne _ _ heq]
        exact .same rfl
  | @sign call request entry session keypair h _ =>
      by_cases heq : c = call
      · subst heq
        rw [World.setCall_calls_self, h]
        exact .finished rfl
      · rw [World.setCall_calls_ne _ _ heq]
        exact .same rfl
  | cancelPoisoned h =>
      rw [World.enter_calls_ne _ _ hc]
      exact .same rfl
  | cancel =>
      rw [henter]
      exact .same rfl

theorem signer_next_le {C : Crates T} {self : ArkSigner T}
    {s s' : SapioTee.World T} {b : SapioTee.Act T}
    {new : List (SapioTee.Event T)} (h : SapioTee.Moves C self s b s' new) :
    s.next ≤ s'.next := by
  cases h with
  | tick _ | stay _ | readClock _ | reserveRefused _ _ | reserve _ _
  | signRefused _ _ | sign _ _ => exact Nat.le_refl _
  | refuse _ | authorize _ | finishPoisoned _ | finishMissing _
  | finishTake _ | cancelPoisoned _ | cancel => exact Nat.le_succ _

/-- A call not made yet has returned nothing. -/
theorem record_of_ge {C : Crates T} {self : ArkSigner T}
    {s s' : SapioTee.World T} {b : SapioTee.Act T}
    {new : List (SapioTee.Event T)} (h : SapioTee.Moves C self s b s' new)
    (hf : Unused s)
    (results : Nat → Option (Except Error PrepareResponse)) {c : Nat}
    (hc : s'.next ≤ c) : record results new c = results c := by
  have hidle : ∀ {call}, s.calls call ≠ .idle → s.next ≤ c → c ≠ call := by
    rintro call hbusy hle rfl
    exact hbusy (hf c hle)
  have hle := signer_next_le h
  cases h with
  | tick _ | stay _ | authorize _ | readClock _ | finishPoisoned _
  | finishMissing _ | finishTake _ | signRefused _ _ | sign _ _
  | cancelPoisoned _ | cancel => rfl
  | refuse _ =>
      have hc' : s.next + 1 ≤ c := hc
      exact Function.update_of_ne (by omega) _ _
  | reserveRefused hcall _ =>
      exact Function.update_of_ne
        (hidle (by rw [hcall]; nofun) (Nat.le_trans hle hc)) _ _
  | reserve hcall _ =>
      exact Function.update_of_ne
        (hidle (by rw [hcall]; nofun) (Nat.le_trans hle hc)) _ _

/-- A prepare that has been entered and has not returned. -/
def InProgress : Call T → Prop
  | .authorized _ _ | .timed _ _ _ => True
  | _ => False

theorem enter_effect (C : Crates T) (self : ArkSigner T)
    (s : SapioTee.World T) (body : PrepareRequest T)
    (results : Nat → Option (Except Error PrepareResponse)) :
    (s.step C self (.prepare body)).1.next = s.next + 1 ∧
      ((∃ grant, (s.step C self (.prepare body)).1.calls s.next
            = .authorized body grant ∧
          record results (s.step C self (.prepare body)).2 s.next
            = results s.next) ∨
        ∃ error, (s.step C self (.prepare body)).1.calls s.next = .returned ∧
          .refused s.next body error ∈ (s.step C self (.prepare body)).2 ∧
          record results (s.step C self (.prepare body)).2 s.next
            = some (.error error)) := by
  simp only [SapioTee.World.step, SapioTee.World.stepPrepare]
  split
  · next error _ =>
      exact ⟨rfl, .inr ⟨error, World.enter_calls_self _ _, List.mem_cons_self,
        Function.update_self _ _ _⟩⟩
  · next grant _ =>
      exact ⟨rfl, .inl ⟨grant, World.enter_calls_self _ _, rfl⟩⟩

/-- The new call of a finish or a cancel is not a prepare. -/
theorem ark_effect {C : Crates T} {self : ArkSigner T}
    {s : SapioTee.World T} {b : SapioTee.Act T}
    (hb : (∃ r, b = .finish r) ∨ ∃ r, b = .cancel r) :
    ¬ InProgress ((s.step C self b).1.calls s.next) := by
  have henter : ∀ {m x}, ((s.setPending m).enter x).calls s.next = x :=
    fun {m x} => World.enter_calls_self (s.setPending m) x
  rcases hb with ⟨r, rfl⟩ | ⟨r, rfl⟩
  · simp only [SapioTee.World.step, SapioTee.World.stepFinish]
    split
    · rw [World.enter_calls_self]
      exact id
    · split
      · rw [henter]
        exact id
      · rw [henter]
        exact id
  · simp only [SapioTee.World.step, SapioTee.World.stepCancel]
    split
    · rw [World.enter_calls_self]
      exact id
    · rw [henter]
      exact id

/-- The other steps make no call. -/
theorem owned_next {C : Crates T} {self : ArkSigner T}
    {s : SapioTee.World T} {call : Nat} {b : SapioTee.Act T}
    (hb : b = .readClock call ∨ b = .sign call ∨
      ∃ entropy draws, b = .reserve call entropy draws) :
    (s.step C self b).1.next = s.next := by
  rcases hb with rfl | rfl | ⟨entropy, draws, rfl⟩
  · simp only [SapioTee.World.step, SapioTee.World.stepReadClock]
    split <;> rfl
  · simp only [SapioTee.World.step, SapioTee.World.stepSign]
    split
    · split <;> rfl
    · rfl
  · simp only [SapioTee.World.step, SapioTee.World.stepReserve]
    split
    · split
      · rfl
      · split <;> rfl
    · rfl

/-- The call on this body has returned this. -/
def Returned (es : List (Event E)) (c : Nat) (body : PrepareRequest T) :
    Except Error PrepareResponse → Prop
  | .error error => .signer (.refused c body error) ∈ es
  | .ok response => ∃ now entry,
      .signer (.prepared c body now response entry) ∈ es

theorem Returned.mono {es : List (Event E)} {c : Nat}
    {body : PrepareRequest T} {result : Except Error PrepareResponse}
    (h : Returned es c body result) (new : List (Event E)) :
    Returned (es ++ new) c body result := by
  cases result with
  | error error => exact List.mem_append_left _ h
  | ok response =>
      obtain ⟨now, entry, hmem⟩ := h
      exact ⟨now, entry, List.mem_append_left _ hmem⟩

/-- The call is the prepare of this body: under way, or returned with what is
recorded for it. -/
def Follows (w : World E) (es : List (Event E)) (c : Nat)
    (body : PrepareRequest T) : Prop :=
  (w.results c = none ∧
    ((∃ grant, w.signer.calls c = .authorized body grant) ∨
      ∃ grant now, w.signer.calls c = .timed body grant now)) ∨
  (w.signer.calls c = .returned ∧
    ∃ result, w.results c = some result ∧ Returned es c body result)

theorem Follows.effect {w w' : World E} {es : List (Event E)}
    {new : List (SapioTee.Event T)} {c : Nat} {body : PrepareRequest T}
    (h : Follows w es c body)
    (heffect : CallEffect new c (w.results c) (w'.results c)
      (w.signer.calls c) (w'.signer.calls c)) :
    Follows w' (es ++ new.map .signer) c body := by
  rcases h with ⟨hnone, hcall⟩ | ⟨hcall, result, hresult, hreturned⟩
  · rw [hnone] at heffect
    generalize hx : w.signer.calls c = x at heffect hcall
    generalize hy : w'.signer.calls c = y at heffect
    cases heffect with
    | same h =>
        refine .inl ⟨h, ?_⟩
        rw [hy]
        exact hcall
    | timed h =>
        rcases hcall with ⟨_, hcall⟩ | ⟨_, _, hcall⟩
        · injection hcall with hbody _
          subst hbody
          exact .inl ⟨h, .inr ⟨_, _, hy⟩⟩
        · cases hcall
    | @refused _ _ _ error hnew h =>
        rcases hcall with ⟨_, hcall⟩ | ⟨_, _, hcall⟩
        · cases hcall
        · injection hcall with hbody _ _
          subst hbody
          exact .inr ⟨hy, .error error, h,
            List.mem_append_right _ (List.mem_map_of_mem hnew)⟩
    | @prepared _ _ now response entry hnew h =>
        rcases hcall with ⟨_, hcall⟩ | ⟨_, _, hcall⟩
        · cases hcall
        · injection hcall with hbody _ _
          subst hbody
          exact .inr ⟨hy, .ok response, h, _, entry,
            List.mem_append_right _ (List.mem_map_of_mem hnew)⟩
    | finished _ =>
        rcases hcall with ⟨_, hcall⟩ | ⟨_, _, hcall⟩ <;> cases hcall
  · rw [hcall] at heffect
    generalize hy : w'.signer.calls c = y at heffect
    cases heffect with
    | same h =>
        exact .inr ⟨hy, result, by rw [h, hresult], hreturned.mono _⟩

/-- What a reply says that its prepare returned. -/
def replyResult : Admission.Reply → Option (Except Error PrepareResponse)
  | .prepared response => some (.ok response)
  | .unprocessable error => some (.error error)
  | _ => none

/-- The requests, their tasks and their calls. -/
structure Tracked (w : World E) (es : List (Event E)) : Prop where
  unused : Unused w.signer
  blank : ∀ c, w.signer.next ≤ c → w.results c = none
  fresh : ∀ r c, w.calls r = some c → c < w.signer.next
  apart : ∀ r r' c, w.calls r = some c → w.calls r' = some c → r = r'
  follows : ∀ r c, w.calls r = some c → ∃ task, task.request = r ∧
    .admission (.spawned task) ∈ es ∧ Follows w es c task.body
  running : ∀ r c, w.calls r = some c → w.results c = none →
    ∃ task ∈ w.admission.running, task.request = r
  busy : ∀ c, InProgress (w.signer.calls c) → ∃ r, w.calls r = some c
  joined : ∀ r result, w.admission.handlers r = .joined result →
    ∃ c x, w.calls r = some c ∧ w.results c = some x ∧ result = outcome x
  replied : ∀ r reply result, .admission (.replied r reply) ∈ es →
    replyResult reply = some result →
    ∃ c, w.calls r = some c ∧ w.results c = some result

theorem tracked_start : Tracked (World.start : World E) [] where
  unused := fun _ _ => rfl
  blank := fun _ _ => rfl
  fresh := fun _ _ h => nomatch h
  apart := fun _ _ _ h => nomatch h
  follows := fun _ _ h => nomatch h
  running := fun _ _ h => nomatch h
  busy := fun _ h => absurd h id
  joined := fun _ _ h => nomatch h
  replied := fun _ _ _ h => nomatch h

/-! ### The route's steps -/

theorem remove_request {request : Nat} {tasks rest : List (Admission.Task T)}
    {task : Admission.Task T}
    (h : Admission.remove request tasks = some (task, rest)) :
    task.request = request := by
  induction tasks generalizing task rest with
  | nil => cases h
  | cons t tasks ih =>
      rw [Admission.remove] at h
      split at h
      · next heq =>
          injection h with h
          injection h with htask _
          rw [← htask]
          exact heq
      · obtain ⟨⟨found, rest'⟩, hfound, heq⟩ := Option.map_eq_some_iff.mp h
        injection heq with htask _
        rw [← htask]
        exact ih hfound

/-- A running task stays until it is completed. -/
theorem running_step {v v' : Admission.World T} {b : Admission.Act T}
    {out : List (Admission.Event T)} (h : Admission.Moves v b v' out)
    {t : Admission.Task T} (ht : t ∈ v.running)
    (hb : ∀ result, b ≠ .complete t.request result) : t ∈ v'.running := by
  cases h with
  | start _ => exact List.mem_append_left _ ht
  | @complete _ result _ _ _ hremove _ =>
      rcases (mem_of_remove hremove).mp ht with rfl | hrest
      · exact absurd (congrArg (Admission.Act.complete · result)
          (remove_request hremove).symm) (hb result)
      · exact hrest
  | _ => exact ht

theorem replyResult_joined (result : Option (Except Error PrepareResponse)) :
    replyResult (Admission.joinedReply result) = result := by
  rcases result with _ | _ | _ <;> rfl

/-- A prepare's result is replied by its handler, once it has joined. -/
theorem replied_event {v v' : Admission.World T} {b : Admission.Act T}
    {out : List (Admission.Event T)} (h : Admission.Moves v b v' out)
    {r : Nat} {reply : Admission.Reply} {result : Except Error PrepareResponse}
    (hmem : .replied r reply ∈ out)
    (hreply : replyResult reply = some result) :
    v.handlers r = .joined (some result) := by
  cases h with
  | overloaded =>
      injection List.mem_singleton.mp hmem with _ heq
      rw [heq] at hreply
      cases hreply
  | leave hleaves =>
      have heq := List.mem_singleton.mp hmem
      cases hleaves with
      | joined hjoined =>
          injection heq with hr heq
          rw [heq, replyResult_joined] at hreply
          rw [hr, hjoined, hreply]
      | refused _ hsigner =>
          injection heq with _ heq
          rw [heq] at hreply
          rcases Admission.arkSignerOf_error hsigner with rfl | rfl <;>
            cases hreply
      | dropped _ => cases heq
      | _ =>
          injection heq with _ heq
          rw [heq] at hreply
          cases hreply
  | _ => simp at hmem

theorem Follows.mono {w : World E} {es : List (Event E)} {c : Nat}
    {body : PrepareRequest T} (h : Follows w es c body)
    (new : List (Event E)) : Follows w (es ++ new) c body := by
  rcases h with h | ⟨hcall, result, hresult, hreturned⟩
  · exact .inl h
  · exact .inr ⟨hcall, result, hresult, hreturned.mono new⟩

theorem Tracked.route {w : World E} {es : List (Event E)} (h : Tracked w es)
    {b : Admission.Act T}
    (hb : ∀ r result, b = .complete r result →
      ∃ c x, w.calls r = some c ∧ w.results c = some x ∧ result = outcome x) :
    Tracked { w with admission := (w.admission.step b).1 }
      (es ++ (w.admission.step b).2.map .admission) where
  unused := h.unused
  blank := h.blank
  fresh := h.fresh
  apart := h.apart
  follows := by
    intro r c hc
    obtain ⟨task, hr, hmem, hfollows⟩ := h.follows r c hc
    exact ⟨task, hr, List.mem_append_left _ hmem, hfollows.mono _⟩
  running := by
    intro r c hc hnone
    obtain ⟨task, hmem, hr⟩ := h.running r c hc hnone
    refine ⟨task, running_step (Admission.step_moves _ b) hmem ?_,
      hr⟩
    intro result heq
    obtain ⟨c', x, hc', hx, -⟩ := hb _ _ heq
    rw [hr, hc] at hc'
    injection hc' with hc'
    have hnone' : w.results c = none := hnone
    rw [hc', hx] at hnone'
    cases hnone'
  busy := h.busy
  joined := by
    intro r result hr
    have hmoves := handlerMoves_step (Admission.step_moves w.admission b) r
    have hr' : (w.admission.step b).1.handlers r = .joined result := hr
    rw [hr'] at hmoves
    generalize hx : w.admission.handlers r = x at hmoves
    cases hmoves with
    | same => exact h.joined r result hx
    | arrived _ _ hy => rcases hy with hy | hy <;> cases hy
    | joined heq => exact hb r result heq
  replied := by
    intro r reply result hmem hreply
    rcases List.mem_append.mp hmem with hold | hnew
    · exact h.replied r reply result hold hreply
    · obtain ⟨e, he, heq⟩ := List.mem_map.mp hnew
      injection heq with heq
      subst heq
      obtain ⟨c, x, hc, hx, houtcome⟩ :=
        h.joined r _ (replied_event (Admission.step_moves _ b) he hreply)
      refine ⟨c, hc, ?_⟩
      rw [hx]
      unfold outcome at houtcome
      split at houtcome
      · cases houtcome
      · exact houtcome.symm

/-! ### The signer's steps -/

section

variable {w : World E} {es : List (Event E)} {self : ArkSigner T}
  {b : SapioTee.Act T}

theorem Tracked.effect (h : Tracked w es) (self : ArkSigner T)
    (b : SapioTee.Act T) {r c : Nat} (hc : w.calls r = some c) :
    CallEffect (w.signer.step E.crates self b).2 c (w.results c)
      (record w.results (w.signer.step E.crates self b).2 c)
      (w.signer.calls c) ((w.signer.step E.crates self b).1.calls c) := by
  have hlt := h.fresh r c hc
  exact callEffect_of_moves (SapioTee.step_moves _ b) (by omega) w.results

/-- What a step of the signer keeps of the older calls. -/
theorem Tracked.follows_step (h : Tracked w es) {w' : World E}
    (hsigner : w'.signer = (w.signer.step E.crates self b).1)
    (hresults : w'.results
      = record w.results (w.signer.step E.crates self b).2)
    {r c : Nat} (hc : w.calls r = some c) :
    ∃ task, task.request = r ∧ .admission (.spawned task)
        ∈ es ++ (w.stepSigner self b).2 ∧
      Follows w' (es ++ (w.stepSigner self b).2) c task.body := by
  obtain ⟨task, hr, hmem, hfollows⟩ := h.follows r c hc
  refine ⟨task, hr, List.mem_append_left _ hmem, hfollows.effect ?_⟩
  rw [hsigner, hresults]
  exact h.effect self b hc

theorem Tracked.results_none (h : Tracked w es) {r c : Nat}
    (hc : w.calls r = some c)
    (hnone : record w.results (w.signer.step E.crates self b).2 c = none) :
    w.results c = none := by
  have heffect := h.effect self b hc
  rw [hnone] at heffect
  generalize w.signer.calls c = x at heffect
  generalize (w.signer.step E.crates self b).1.calls c = y at heffect
  cases heffect with
  | same h => exact h.symm
  | timed h => exact h.symm
  | refused _ h => cases h
  | prepared _ h => cases h
  | finished h => exact h.symm

theorem Tracked.results_some (h : Tracked w es) {r c : Nat}
    (hc : w.calls r = some c) {x : Except Error PrepareResponse}
    (hx : w.results c = some x) :
    record w.results (w.signer.step E.crates self b).2 c = some x := by
  have heffect := h.effect self b hc
  obtain ⟨task, -, -, hfollows⟩ := h.follows r c hc
  rcases hfollows with ⟨hnone, -⟩ | ⟨hcall, -⟩
  · rw [hx] at hnone
    cases hnone
  · rw [hcall] at heffect
    generalize (w.signer.step E.crates self b).1.calls c = y at heffect
    cases heffect with
    | same h => rw [h, hx]

theorem Tracked.busy_step (h : Tracked w es) {c : Nat} (hc : c ≠ w.signer.next)
    (hbusy : InProgress ((w.signer.step E.crates self b).1.calls c)) :
    ∃ r, w.calls r = some c := by
  have heffect := callEffect_of_moves
    (@SapioTee.step_moves T E.crates self w.signer b) hc w.results
  refine h.busy c ?_
  generalize w.signer.calls c = x at heffect ⊢
  generalize (w.signer.step E.crates self b).1.calls c = y at heffect hbusy
  cases heffect with
  | same _ => exact hbusy
  | timed _ => trivial
  | refused _ _ | prepared _ _ | finished _ => exact absurd hbusy id

theorem not_admission_of_signer {e : Admission.Event T}
    (h : .admission e ∈ (w.stepSigner self b).2) : False := by
  obtain ⟨_, _, heq⟩ := List.mem_map.mp h
  cases heq

/-- A step of the signer that makes no prepare. -/
theorem Tracked.owned (h : Tracked w es) {owners : Nat → Option (ArkSigner T)}
    (hnew : ¬ InProgress
      ((w.signer.step E.crates self b).1.calls w.signer.next)) :
    Tracked { (w.stepSigner self b).1 with owners := owners }
      (es ++ (w.stepSigner self b).2) where
  unused := (SapioTee.step_moves w.signer b).unused h.unused
  blank := by
    intro c hc
    have hmoves := @SapioTee.step_moves T E.crates self w.signer b
    have hle := signer_next_le hmoves
    exact (record_of_ge hmoves h.unused w.results hc).trans
      (h.blank c (Nat.le_trans hle hc))
  fresh := by
    intro r c hc
    exact Nat.lt_of_lt_of_le (h.fresh r c hc)
      (signer_next_le (SapioTee.step_moves w.signer b))
  apart := h.apart
  follows := fun r c hc => h.follows_step rfl rfl hc
  running := fun r c hc hnone => h.running r c hc (h.results_none hc hnone)
  busy := by
    intro c hbusy
    by_cases heq : c = w.signer.next
    · subst heq
      exact absurd hbusy hnew
    · exact h.busy_step heq hbusy
  joined := by
    intro r result hr
    obtain ⟨c, x, hc, hx, houtcome⟩ := h.joined r result hr
    exact ⟨c, x, hc, h.results_some hc hx, houtcome⟩
  replied := by
    intro r reply result hmem hreply
    rcases List.mem_append.mp hmem with hold | hnew
    · obtain ⟨c, hc, hx⟩ := h.replied r reply result hold hreply
      exact ⟨c, hc, h.results_some hc hx⟩
    · exact absurd hnew not_admission_of_signer

/-- A request with a call, after its task has made it. -/
theorem calls_update {r k c n : Nat}
    (h : Function.update w.calls k (some n) r = some c) :
    (r = k ∧ c = n) ∨ (r ≠ k ∧ w.calls r = some c) := by
  rw [Function.update_apply] at h
  split at h
  · next heq =>
      injection h with h
      exact .inl ⟨heq, h.symm⟩
  · next hne => exact .inr ⟨hne, h⟩

theorem calls_update_of_some {r k c n : Nat} (hnone : w.calls k = none)
    (h : w.calls r = some c) :
    Function.update w.calls k (some n) r = some c := by
  have hne : r ≠ k := by
    rintro rfl
    rw [hnone] at h
    cases h
  rw [Function.update_of_ne hne]
  exact h

/-- A task's call. -/
theorem Tracked.enter (h : Tracked w es) {task : Admission.Task T}
    (htask : task ∈ w.admission.running)
    (hnone : w.calls task.request = none)
    (hspawned : .admission (.spawned task) ∈ es) :
    Tracked
      { (w.stepCall task.signer (.prepare task.body)).1 with
        calls := Function.update w.calls task.request (some w.signer.next) }
      (es ++ (w.stepCall task.signer (.prepare task.body)).2) := by
  obtain ⟨hnext, hentered⟩ := enter_effect E.crates task.signer w.signer
    task.body w.results
  have hmoves := @SapioTee.step_moves T E.crates task.signer w.signer
    (.prepare task.body)
  refine ⟨hmoves.unused h.unused, ?_, ?_, ?_, ?_, ?_, ?_, ?_, ?_⟩
  · intro c hc
    exact (record_of_ge hmoves h.unused w.results hc).trans
      (h.blank c (Nat.le_trans (signer_next_le hmoves) hc))
  · intro r c hc
    show c < (w.signer.step E.crates task.signer (.prepare task.body)).1.next
    rcases calls_update hc with ⟨-, rfl⟩ | ⟨-, hc⟩
    · omega
    · have hlt := h.fresh r c hc
      omega
  · intro r r' c hc hc'
    rcases calls_update hc with ⟨hr, hn⟩ | ⟨-, hc⟩
    · rcases calls_update hc' with ⟨hr', -⟩ | ⟨-, hc'⟩
      · rw [hr, hr']
      · have hlt := h.fresh r' c hc'
        omega
    · rcases calls_update hc' with ⟨-, hn⟩ | ⟨-, hc'⟩
      · have hlt := h.fresh r c hc
        omega
      · exact h.apart r r' c hc hc'
  · intro r c hc
    rcases calls_update hc with ⟨rfl, rfl⟩ | ⟨-, hc⟩
    · refine ⟨task, rfl, List.mem_append_left _ hspawned, ?_⟩
      rcases hentered with ⟨grant, hcall, hresult⟩ |
        ⟨error, hcall, hnew, hresult⟩
      · exact .inl ⟨hresult.trans (h.blank _ (Nat.le_refl _)),
          .inl ⟨grant, hcall⟩⟩
      · exact .inr ⟨hcall, .error error, hresult,
          List.mem_append_right _ (List.mem_map_of_mem hnew)⟩
    · exact h.follows_step rfl rfl hc
  · intro r c hc hblank
    rcases calls_update hc with ⟨rfl, -⟩ | ⟨-, hc⟩
    · exact ⟨task, htask, rfl⟩
    · exact h.running r c hc (h.results_none hc hblank)
  · intro c hbusy
    by_cases heq : c = w.signer.next
    · subst heq
      exact ⟨task.request, Function.update_self _ _ _⟩
    · obtain ⟨r, hc⟩ := h.busy_step heq hbusy
      exact ⟨r, calls_update_of_some hnone hc⟩
  · intro r result hr
    obtain ⟨c, x, hc, hx, houtcome⟩ := h.joined r result hr
    exact ⟨c, x, calls_update_of_some hnone hc, h.results_some hc hx,
      houtcome⟩
  · intro r reply result hmem hreply
    rcases List.mem_append.mp hmem with hold | hnew
    · obtain ⟨c, hc, hx⟩ := h.replied r reply result hold hreply
      exact ⟨c, calls_update_of_some hnone hc, h.results_some hc hx⟩
    · exact absurd hnew not_admission_of_signer

end

theorem Tracked.still {w : World E} {es : List (Event E)} (h : Tracked w es)
    {w' : World E} {new : List (Event E)}
    (hsigner : w'.signer.calls = w.signer.calls)
    (hnext : w'.signer.next = w.signer.next)
    (hcalls : w'.calls = w.calls) (hresults : w'.results = w.results)
    (hrunning : w'.admission.running = w.admission.running)
    (hhandlers : w'.admission.handlers = w.admission.handlers)
    (hquiet : ∀ e, .admission e ∉ new) :
    Tracked w' (es ++ new) := by
  have hfollows : ∀ {c body}, Follows w es c body →
      Follows w' (es ++ new) c body := by
    intro c body hold
    unfold Follows
    rw [hsigner, hresults]
    exact hold.mono new
  refine ⟨?_, ?_, ?_, ?_, ?_, ?_, ?_, ?_, ?_⟩
  · intro c hc
    rw [hsigner]
    exact h.unused c (hnext ▸ hc)
  · intro c hc
    rw [hresults]
    exact h.blank c (hnext ▸ hc)
  · rw [hcalls, hnext]
    exact h.fresh
  · rw [hcalls]
    exact h.apart
  · rw [hcalls]
    intro r c hc
    obtain ⟨task, hr, hmem, hold⟩ := h.follows r c hc
    exact ⟨task, hr, List.mem_append_left _ hmem, hfollows hold⟩
  · rw [hcalls, hresults, hrunning]
    exact h.running
  · rw [hsigner, hcalls]
    exact h.busy
  · rw [hhandlers, hcalls, hresults]
    exact h.joined
  · rw [hcalls, hresults]
    intro r reply result hmem hreply
    rcases List.mem_append.mp hmem with hold | hnew
    · exact h.replied r reply result hold hreply
    · exact absurd hnew (hquiet _)

/-- The tasks under way have been spawned. -/
theorem spawned_of_running (E : App.Enclave T) (acts : List (Act T))
    {task : Admission.Task T}
    (h : task ∈ ((process E).state acts).admission.running) :
    .admission (.spawned task) ∈ (process E).trace acts := by
  obtain ⟨bs, hstate, htrace⟩ := exists_admission_run E acts
  have hconserved := Admission.conserved bs
  rw [hstate, htrace] at hconserved
  rw [← mem_view view_admission, ← mem_spawnedTasks]
  refine hconserved.tasks.symm.subset ?_
  exact List.mem_append_right _ (List.mem_append_right _ h)

theorem tracked (E : App.Enclave T) (acts : List (Act T)) :
    Tracked ((process E).state acts) ((process E).trace acts) := by
  refine (process E).run_induct_reach (P := Tracked) tracked_start ?_ acts
  intro pre a h
  have hmoves := step_moves ((process E).state pre) a
  show Tracked (((process E).state pre).step a).1
    ((process E).trace pre ++ (((process E).state pre).step a).2)
  generalize (((process E).state pre).step a).1 = w' at hmoves ⊢
  generalize (((process E).state pre).step a).2 = new at hmoves ⊢
  cases hmoves with
  | still => exact h.still rfl rfl rfl rfl rfl rfl nofun
  | refused _ =>
      refine h.still rfl rfl rfl rfl rfl rfl ?_
      exact fun _ hmem => nomatch List.mem_singleton.mp hmem
  | app b =>
      refine h.still rfl rfl rfl rfl rfl rfl ?_
      intro e hmem
      obtain ⟨_, _, heq⟩ := List.mem_map.mp hmem
      cases heq
  | tick _ => exact h.still rfl rfl rfl rfl rfl rfl nofun
  | admission hown =>
      refine h.route ?_
      rintro r result rfl
      exact absurd hown id
  | leave hcall hresult =>
      refine h.route ?_
      intro r result heq
      injection heq with hr hx
      subst hr
      exact ⟨_, _, hcall, hresult, hx.symm⟩
  | enter htask hnone =>
      exact h.enter htask hnone (spawned_of_running E pre htask)
  | ark _ hb => exact h.owned (ark_effect hb)
  | @owned _ _ self b _ hb =>
      refine h.owned ?_
      have hmoves := @SapioTee.step_moves T E.crates self
        ((process E).state pre).signer b
      rw [hmoves.unused h.unused _ (Nat.le_of_eq (owned_next hb))]
      exact id

/-! ## The results -/

theorem spawned_unique (E : App.Enclave T) (acts : List (Act T))
    {task task' : Admission.Task T}
    (h : .admission (.spawned task) ∈ (process E).trace acts)
    (h' : .admission (.spawned task') ∈ (process E).trace acts)
    (heq : task.request = task'.request) : task = task' := by
  obtain ⟨bs, -, htrace⟩ := exists_admission_run E acts
  have hnumbered := numbered bs
  rw [htrace] at hnumbered
  rw [← mem_view view_admission, ← mem_spawnedTasks] at h h'
  exact List.inj_on_of_nodup_map hnumbered.once h h' heq

/-- A task is spawned by the request that it is numbered for, on the body that
was extracted from that request. -/
theorem extract_of_spawned (E : App.Enclave T) {acts : List (Act T)}
    {task : Admission.Task T}
    (h : .admission (.spawned task) ∈ (process E).trace acts) :
    .admission (.extract task.request (.ok task.body)) ∈ acts := by
  obtain ⟨pre, a, post, rfl, hmem⟩ := (process E).exists_step_of_mem h
  have hmoves := step_moves ((process E).state pre) a
  change .admission (.spawned task)
    ∈ (((process E).state pre).step a).2 at hmem
  generalize (((process E).state pre).step a).1 = w',
    (((process E).state pre).step a).2 = new at hmoves hmem
  have hevent : ∀ {b}, .admission (.spawned task)
      ∈ (((process E).state pre).admission.step b).2.map
        (Event.admission (E := E)) →
      b = .extract task.request (.ok task.body) := by
    intro b hb
    obtain ⟨e, he, heq⟩ := List.mem_map.mp hb
    injection heq with heq
    subst heq
    exact (spawned_event (Admission.step_moves _ b) he).1
  refine List.mem_append_right _ (List.mem_cons.mpr (.inl ?_))
  cases hmoves with
  | admission _ => rw [hevent hmem]
  | leave _ _ => cases hevent hmem
  | still | tick _ => cases hmem
  | refused _ => cases List.mem_singleton.mp hmem
  | app _ | enter _ _ | ark _ _ | owned _ _ =>
      obtain ⟨_, _, heq⟩ := List.mem_map.mp hmem
      cases heq

/-- A client is answered with what the prepare of its own body returned, and
no two clients from one call. The body is the one that was extracted from the
client's request, which no other is spawned for. -/
theorem answered_by_own_call (E : App.Enclave T) (acts : List (Act T)) :
    ∃ calls : Nat → Option Nat,
      (∀ r r' c, calls r = some c → calls r' = some c → r = r') ∧
      ∀ r reply result,
        .admission (.replied r reply) ∈ (process E).trace acts →
        replyResult reply = some result →
        ∃ task c, calls r = some c ∧ task.request = r ∧
          .admission (.extract r (.ok task.body)) ∈ acts ∧
          .admission (.spawned task) ∈ (process E).trace acts ∧
          (∀ task', .admission (.spawned task') ∈ (process E).trace acts →
            task'.request = r → task' = task) ∧
          Returned ((process E).trace acts) c task.body result := by
  have h := tracked E acts
  refine ⟨_, h.apart, ?_⟩
  intro r reply result hmem hreply
  obtain ⟨c, hc, hresult⟩ := h.replied r reply result hmem hreply
  obtain ⟨task, hr, hspawned, hfollows⟩ := h.follows r c hc
  refine ⟨task, c, hc, hr, ?_, hspawned, ?_, ?_⟩
  · rw [← hr]
    exact extract_of_spawned E hspawned
  · intro task' hspawned' hr'
    exact spawned_unique E acts hspawned' hspawned (hr'.trans hr.symm)
  · rcases hfollows with ⟨hnone, -⟩ | ⟨-, x, hx, hreturned⟩
    · rw [hresult] at hnone
      cases hnone
    · rw [hresult] at hx
      injection hx with hx
      rwa [hx]

/-- Each prepare under way holds a permit of its own, whatever has become of
the handler that asked for it. -/
theorem prepares_hold_permits (E : App.Enclave T) (acts : List (Act T)) :
    {c | InProgress (((process E).state acts).signer.calls c)}.encard
        + ((process E).state acts).admission.permits
      ≤ maxConnections := by
  have h := tracked E acts
  have hrequest : ∀ c, InProgress (((process E).state acts).signer.calls c) →
      ∃ r, ((process E).state acts).calls r = some c ∧
        r ∈ ((process E).state acts).admission.running.map
          Admission.Task.request := by
    intro c hbusy
    obtain ⟨r, hr⟩ := h.busy c hbusy
    refine ⟨r, hr, ?_⟩
    have hnone : ((process E).state acts).results c = none := by
      obtain ⟨_, -, -, hfollows⟩ := h.follows r c hr
      rcases hfollows with ⟨hnone, -⟩ | ⟨hreturned, -⟩
      · exact hnone
      · rw [hreturned] at hbusy
        exact absurd hbusy id
    obtain ⟨task, hmem, rfl⟩ := h.running r c hr hnone
    exact List.mem_map_of_mem hmem
  choose! f hcalls hrunning using hrequest
  have hinj : Set.InjOn f
      {c | InProgress (((process E).state acts).signer.calls c)} := by
    intro c hc c' hc' heq
    have hsome := hcalls c hc
    rw [heq, hcalls c' hc'] at hsome
    injection hsome with hsome
    exact hsome.symm
  have hmaps : Set.MapsTo f
      {c | InProgress (((process E).state acts).signer.calls c)}
      (((process E).state acts).admission.running.map
        Admission.Task.request).toFinset :=
    fun c hc => List.mem_toFinset.mpr (hrunning c hc)
  have hcard := Set.encard_le_encard_of_injOn hmaps hinj
  rw [Set.encard_coe_eq_coe_finsetCard] at hcard
  have hlength := List.toFinset_card_le
    (((process E).state acts).admission.running.map Admission.Task.request)
  rw [List.length_map] at hlength
  obtain ⟨bs, hstate, -⟩ := exists_admission_run E acts
  have hpermits := (Admission.conserved bs).permits
  rw [hstate, Admission.World.executions, List.length_append] at hpermits
  calc {c | InProgress (((process E).state acts).signer.calls c)}.encard
        + ((process E).state acts).admission.permits
      ≤ (((process E).state acts).admission.running.length : ENat)
        + ((process E).state acts).admission.permits :=
        add_le_add (hcard.trans (Nat.cast_le.mpr hlength)) le_rfl
    _ ≤ maxConnections := by
        rw [← Nat.cast_add]
        exact Nat.cast_le.mpr (by omega)

end SapioTee.Process
