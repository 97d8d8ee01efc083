import SapioTee.Model.Admission
import SapioTee.Model.Symbolic

/-!
# Evaluation admission is neither exceeded nor leaked

`Moves` says once what each step can do. To permits and tasks it does one of
four things: it leaves both alone, turns a permit into a queued task, hands a
queued task to a thread, or turns a running task back into a permit. So
permits and tasks add up to the same number in every state of every run, and
the tasks there are, are the ones that were spawned and have not ended: no
drop of a handler adds or removes one.
-/

namespace SapioTee.Admission

open Lib

variable {T : Types}

/-- The executions of `ArkSigner::prepare` queued or running. -/
def World.executions (w : World T) : List (Task T) := w.queued ++ w.running

/-- Both `OnceLock`s are set. -/
def World.Initialized (w : World T) : Prop :=
  w.identity = true ∧ w.arkSigner.isSome

def Event.spawnedTask : Event T → Option (Task T)
  | .spawned task => some task
  | _ => none

def Event.completedTask : Event T → Option (Task T)
  | .completed task => some task
  | _ => none

/-- The tasks spawned in a trace, and those that ended in it. -/
def spawnedTasks (es : List (Event T)) : List (Task T) :=
  es.filterMap Event.spawnedTask

def completedTasks (es : List (Event T)) : List (Task T) :=
  es.filterMap Event.completedTask

theorem spawnedTasks_append (es new : List (Event T)) :
    spawnedTasks (es ++ new) = spawnedTasks es ++ spawnedTasks new :=
  List.filterMap_append

theorem completedTasks_append (es new : List (Event T)) :
    completedTasks (es ++ new) = completedTasks es ++ completedTasks new :=
  List.filterMap_append

/-! ## What a step does -/

theorem remove_perm {request : Nat} {tasks rest : List (Task T)}
    {task : Task T} (h : remove request tasks = some (task, rest)) :
    tasks.Perm (task :: rest) := by
  induction tasks generalizing rest with
  | nil => cases h
  | cons t tasks ih =>
      rw [remove] at h
      split at h
      · injection h with h
        injection h with htask hrest
        subst htask hrest
        exact .refl _
      · obtain ⟨⟨found, rest'⟩, hfound, heq⟩ := Option.map_eq_some_iff.mp h
        injection heq with htask hrest
        subst htask hrest
        exact ((ih hfound).cons t).trans (.swap found t rest')

/-- How a handler that has its result answers. -/
def joinedReply : Option (Except Error PrepareResponse) → Reply
  | some (.ok response) => .prepared response
  | some (.error error) => .unprocessable error
  | none => .evaluatorUnavailable

/-- How the handler of request `k` is over. -/
inductive Leaves (w : World T) (k : Nat) : Act T → Event T → Prop
  | rejected {text : String} (h : w.handlers k = .extracting) :
      Leaves w k (.extract k (.error text)) (.replied k (.rejected text))
  | refused {body : PrepareRequest T} {reply : Reply}
      (h : w.handlers k = .extracting) (hsigner : w.arkSignerOf = .error reply) :
      Leaves w k (.extract k (.ok body)) (.replied k reply)
  | shed {body : PrepareRequest T} {signer : ArkSigner T}
      (h : w.handlers k = .extracting) (hsigner : w.arkSignerOf = .ok signer)
      (hnone : w.permits = 0) :
      Leaves w k (.extract k (.ok body)) (.replied k .evaluationCapacity)
  | joined {result : Option (Except Error PrepareResponse)}
      (h : w.handlers k = .joined result) :
      Leaves w k (.wake k) (.replied k (joinedReply result))
  | deadline (h : w.handlers k ≠ .absent) :
      Leaves w k (.deadline k) (.replied k .deadline)
  | dropped (h : w.handlers k ≠ .absent) :
      Leaves w k (.disconnect k) (.dropped k)

inductive Moves (w : World T) : Act T → World T → List (Event T) → Prop
  | setArk (signer : ArkSigner T) :
      Moves w (.setArk signer)
        { w with arkSigner := w.arkSigner.or (some signer) } []
  | setIdentity : Moves w .setIdentity { w with identity := true } []
  | overloaded :
      Moves w .arrive { w.setHandler w.next .gone with next := w.next + 1 }
        [.replied w.next .apiCapacity]
  | arrive :
      Moves w .arrive
        { w.setHandler w.next .extracting with
          slots := w.slots - 1
          next := w.next + 1 } []
  | still {a : Act T} (h : a ≠ .arrive) : Moves w a w []
  | leave {a : Act T} {k : Nat} {event : Event T} (h : Leaves w k a event) :
      Moves w a (w.leave k) [event]
  | spawn {task : Task T} (h : w.handlers task.request = .extracting)
      (hsigner : w.arkSignerOf = .ok task.signer) (hfree : w.permits ≠ 0) :
      Moves w (.extract task.request (.ok task.body))
        { w.setHandler task.request .joining with
          permits := w.permits - 1
          queued := w.queued ++ [task] } [.spawned task]
  | start {k : Nat} {task : Task T} {queued : List (Task T)}
      (h : remove k w.queued = some (task, queued)) :
      Moves w (.start k)
        { w with queued := queued, running := w.running ++ [task] } []
  | complete {k : Nat} {result : Option (Except Error PrepareResponse)}
      {task : Task T} {running : List (Task T)} {handlers : Nat → Handler}
      (h : remove k w.running = some (task, running))
      (hhandlers : handlers = w.handlers ∨ w.handlers k = .joining ∧
        handlers = Function.update w.handlers k (.joined result)) :
      Moves w (.complete k result)
        { w with
          permits := w.permits + 1
          running := running
          handlers := handlers } [.completed task]

theorem moves_extract (w : World T) (k : Nat)
    (body : Except String (PrepareRequest T)) :
    Moves w (.extract k body) (w.stepExtract k body).1
      (w.stepExtract k body).2 := by
  unfold World.stepExtract
  split
  · next h =>
      split
      · exact .leave (.rejected h)
      · next body =>
          unfold World.stepPrepare
          split
          · next reply hreply => exact .leave (.refused h hreply)
          · next signer hsigner =>
              split
              · next hnone => exact .leave (.shed h hsigner hnone)
              · next hfree =>
                  exact @Moves.spawn T w ⟨k, signer, body⟩ h hsigner hfree
  · exact .still nofun

theorem moves_drop {w : World T} {a : Act T} {k : Nat} {event : Event T}
    (ha : a ≠ .arrive) (h : w.handlers k ≠ .absent → Leaves w k a event) :
    Moves w a (w.dropHandler k event).1 (w.dropHandler k event).2 := by
  unfold World.dropHandler
  split
  · exact .still ha
  · exact .still ha
  · next habsent _ => exact .leave (h habsent)

theorem step_moves (w : World T) (a : Act T) :
    Moves w a (w.step a).1 (w.step a).2 := by
  cases a with
  | setArk signer => exact .setArk signer
  | setIdentity => exact .setIdentity
  | arrive =>
      show Moves w .arrive w.stepArrive.1 w.stepArrive.2
      unfold World.stepArrive
      split
      · exact .overloaded
      · exact .arrive
  | extract k body => exact moves_extract w k body
  | start k =>
      show Moves w (.start k) (w.stepStart k).1 (w.stepStart k).2
      unfold World.stepStart
      split
      · exact .still nofun
      · next task queued hremove => exact .start hremove
  | complete k result =>
      show Moves w (.complete k result) (w.stepComplete k result).1
        (w.stepComplete k result).2
      unfold World.stepComplete
      split
      · exact .still nofun
      · next task running hremove =>
          simp only []
          split
          · next hjoining => exact .complete hremove (.inr ⟨hjoining, rfl⟩)
          · exact .complete hremove (.inl rfl)
  | wake k =>
      show Moves w (.wake k) (w.stepWake k).1 (w.stepWake k).2
      unfold World.stepWake
      split
      · next h => exact .leave (.joined h)
      · next h => exact .leave (.joined h)
      · next h => exact .leave (.joined h)
      · exact .still nofun
  | deadline k => exact moves_drop nofun .deadline
  | disconnect k => exact moves_drop nofun .dropped

/-- A handler's end is no task's. -/
theorem Leaves.quiet {w : World T} {k : Nat} {a : Act T} {event : Event T}
    (h : Leaves w k a event) :
    event.spawnedTask = none ∧ event.completedTask = none := by
  cases h <;> exact ⟨rfl, rfl⟩

/-! ## Conservation -/

/-- Every permit is free or a task's, and the tasks are the ones spawned and
not ended. -/
structure Conserved (w : World T) (es : List (Event T)) : Prop where
  permits : w.permits + w.executions.length = maxConnections
  tasks : (spawnedTasks es).Perm (completedTasks es ++ w.executions)

/-- A step that leaves permits and tasks alone. -/
theorem Conserved.still {w w' : World T} {es new : List (Event T)}
    (h : Conserved w es) (hpermits : w'.permits = w.permits)
    (hqueued : w'.queued = w.queued) (hrunning : w'.running = w.running)
    (hspawned : spawnedTasks new = []) (hcompleted : completedTasks new = []) :
    Conserved w' (es ++ new) := by
  constructor
  · rw [World.executions, hpermits, hqueued, hrunning]
    exact h.permits
  · rw [spawnedTasks_append, completedTasks_append, hspawned, hcompleted,
      List.append_nil, List.append_nil, World.executions, hqueued, hrunning]
    exact h.tasks

theorem Conserved.step {w w' : World T} {a : Act T} {es new : List (Event T)}
    (h : Conserved w es) (hm : Moves w a w' new) :
    Conserved w' (es ++ new) := by
  have hpermits := h.permits
  have htasks := h.tasks
  unfold World.executions at hpermits htasks
  cases hm with
  | setArk _ | setIdentity | overloaded | arrive | still _ =>
      exact h.still rfl rfl rfl rfl rfl
  | leave hleaves =>
      obtain ⟨hspawned, hcompleted⟩ := hleaves.quiet
      exact h.still rfl rfl rfl (List.filterMap_cons_none hspawned)
        (List.filterMap_cons_none hcompleted)
  | @spawn task _ _ hfree =>
      constructor
      · simp only [World.executions, World.setHandler, List.length_append,
          List.length_singleton] at hpermits ⊢
        omega
      · have hspawned : spawnedTasks [Event.spawned task] = [task] := rfl
        have hcompleted : completedTasks [Event.spawned task] = [] := rfl
        rw [spawnedTasks_append, completedTasks_append, hspawned, hcompleted,
          List.append_nil]
        refine (htasks.append_right [task]).trans ?_
        simp only [World.executions, World.setHandler]
        rw [List.append_assoc, List.append_assoc, List.append_assoc w.queued]
        exact (List.perm_append_comm.append_left w.queued).append_left _
  | @start k task queued hremove =>
      have hmoved : (w.queued ++ w.running).Perm
          (queued ++ (w.running ++ [task])) := by
        refine ((remove_perm hremove).append_right w.running).trans ?_
        exact (List.perm_append_singleton task
          (queued ++ w.running)).symm.trans
            (by rw [List.append_assoc])
      constructor
      · rw [World.executions, ← hmoved.length_eq]
        exact hpermits
      · rw [spawnedTasks_append, completedTasks_append, World.executions]
        simp only [spawnedTasks, completedTasks, List.filterMap_nil,
          List.append_nil]
        exact htasks.trans (hmoved.append_left _)
  | @complete k result task running _ hremove _ =>
      have hmoved : (w.queued ++ w.running).Perm
          (task :: (w.queued ++ running)) :=
        ((remove_perm hremove).append_left w.queued).trans List.perm_middle
      constructor
      · have hlen := hmoved.length_eq
        rw [World.executions]
        rw [List.length_cons] at hlen
        simp only []
        omega
      · have hspawned : spawnedTasks [Event.completed task] = [] := rfl
        have hcompleted : completedTasks [Event.completed task] = [task] := rfl
        rw [spawnedTasks_append, completedTasks_append, hspawned, hcompleted,
          List.append_nil, World.executions, List.append_assoc]
        exact htasks.trans (hmoved.append_left _)

theorem conserved (acts : List (Act T)) :
    Conserved ((admission T).state acts) ((admission T).trace acts) := by
  refine (admission T).run_induct ⟨rfl, .refl _⟩ ?_ acts
  intro w es a h
  exact h.step (step_moves w a)

/-! ## Who is shed -/

theorem arkSignerOf_of_initialized {w : World T} (h : w.Initialized) :
    ∃ signer, w.arkSignerOf = .ok signer := by
  obtain ⟨hidentity, hark⟩ := h
  obtain ⟨signer, hsigner⟩ := Option.isSome_iff_exists.mp hark
  refine ⟨signer, ?_⟩
  rw [World.arkSignerOf, if_pos hidentity, hsigner]

/-- An attempt of an initialized process is shed for want of a permit. -/
theorem shed_iff {w : World T} {request : Nat} {body : PrepareRequest T}
    (hextracting : w.handlers request = .extracting) (h : w.Initialized) :
    .replied request .evaluationCapacity
        ∈ (w.step (.extract request (.ok body))).2 ↔ w.permits = 0 := by
  obtain ⟨signer, hsigner⟩ := arkSignerOf_of_initialized h
  show _ ∈ (w.stepExtract request (.ok body)).2 ↔ _
  unfold World.stepExtract
  simp only [hextracting, World.stepPrepare, hsigner]
  split
  · next hnone => exact ⟨fun _ => hnone, fun _ => List.mem_cons_self⟩
  · next hsome =>
      refine ⟨fun hmem => ?_, fun hnone => absurd hnone hsome⟩
      exact nomatch List.mem_singleton.mp hmem

/-- The signer's own errors. -/
theorem arkSignerOf_error {w : World T} {reply : Reply}
    (h : w.arkSignerOf = .error reply) :
    reply = .notInitialized ∨ reply = .arkSignerUnavailable := by
  unfold World.arkSignerOf at h
  split at h
  · split at h
    · cases h
    · injection h with h
      exact .inr h.symm
  · injection h with h
    exact .inl h.symm

theorem initialized_of_ok {w : World T} {signer : ArkSigner T}
    (h : w.arkSignerOf = .ok signer) : w.Initialized := by
  unfold World.arkSignerOf at h
  split at h
  · next hidentity =>
      split at h
      · next hsigner => exact ⟨hidentity, by rw [hsigner]; rfl⟩
      · cases h
  · cases h

/-- And nothing else is. -/
theorem shed_only {w : World T} {a : Act T} {request : Nat}
    (h : .replied request .evaluationCapacity ∈ (w.step a).2) :
    ∃ body, a = .extract request (.ok body) ∧ w.permits = 0 ∧
      w.Initialized := by
  have hmoves := step_moves w a
  generalize (w.step a).1 = w', (w.step a).2 = new at hmoves h
  cases hmoves with
  | leave hleaves =>
      rw [List.mem_singleton] at h
      subst h
      generalize hevent : Event.replied request .evaluationCapacity = event
        at hleaves
      cases hleaves with
      | rejected _ => cases hevent
      | refused _ hsigner =>
          injection hevent with _ hreply
          rw [← hreply] at hsigner
          rcases arkSignerOf_error hsigner with h | h <;> cases h
      | @shed body _ _ hsigner hnone =>
          injection hevent with hk _
          rw [hk]
          exact ⟨body, rfl, hnone, initialized_of_ok hsigner⟩
      | @joined result _ =>
          injection hevent with _ hreply
          unfold joinedReply at hreply
          split at hreply <;> cases hreply
      | deadline _ => cases hevent
      | dropped _ => cases hevent
  | _ => simp at h

/-- After any run: the executions queued or running are those spawned and
not ended, answered clients' included, there are at most `MAX_CONNECTIONS`,
and with the free permits they are exactly as many; an attempt once the
signer is initialized is shed exactly when no permit is free, and no other
step sheds a request for evaluation capacity. -/
theorem admission_exact (acts : List (Act T)) :
    ((admission T).state acts).executions.length ≤ maxConnections ∧
    ((admission T).state acts).permits +
      ((admission T).state acts).executions.length = maxConnections ∧
    (spawnedTasks ((admission T).trace acts)).Perm
      (completedTasks ((admission T).trace acts) ++
        ((admission T).state acts).executions) ∧
    (∀ request body,
      ((admission T).state acts).handlers request = .extracting →
      ((admission T).state acts).Initialized →
      (.replied request .evaluationCapacity
        ∈ (((admission T).state acts).step (.extract request (.ok body))).2 ↔
        ((admission T).state acts).permits = 0)) ∧
    (∀ a request,
      .replied request .evaluationCapacity
        ∈ (((admission T).state acts).step a).2 →
      ∃ body, a = .extract request (.ok body) ∧
        ((admission T).state acts).permits = 0 ∧
        ((admission T).state acts).Initialized) := by
  have hconserved := conserved acts
  refine ⟨?_, hconserved.permits, hconserved.tasks, ?_, ?_⟩
  · have hsum := hconserved.permits
    omega
  · intro request body hextracting hready
    exact shed_iff hextracting hready
  · intro a request hmem
    exact shed_only hmem

/-- Five requests arrive; four take the permits, and the client of the first
is answered 408 while its task is queued. -/
def crowdedRun : List (Act symbolicTypes) :=
  [.setArk Symbolic.self, .setIdentity, .arrive, .arrive, .arrive, .arrive,
    .arrive, .extract 0 (.ok (Symbolic.prepareRequest 1 1)),
    .extract 1 (.ok (Symbolic.prepareRequest 2 1)),
    .extract 2 (.ok (Symbolic.prepareRequest 3 1)),
    .extract 3 (.ok (Symbolic.prepareRequest 4 1)), .start 1, .deadline 0]

theorem admission_exact_crowdedRun :
    .replied 0 .deadline ∈ (admission symbolicTypes).trace crowdedRun ∧
    ((admission symbolicTypes).state crowdedRun).executions.length = 4 ∧
    .replied 4 .evaluationCapacity
      ∈ (((admission symbolicTypes).state crowdedRun).step
        (.extract 4 (.ok (Symbolic.prepareRequest 5 1)))).2 := by
  obtain ⟨-, -, -, hshed, -⟩ := admission_exact crowdedRun
  have hreplied : (admission symbolicTypes).trace crowdedRun
      = ((admission symbolicTypes).trace crowdedRun).take 4 ++
        [.replied 0 .deadline] := rfl
  refine ⟨?_, rfl, (hshed 4 (Symbolic.prepareRequest 5 1) rfl
    ⟨rfl, rfl⟩).mpr rfl⟩
  rw [hreplied]
  exact List.mem_append_right _ List.mem_cons_self

end SapioTee.Admission
