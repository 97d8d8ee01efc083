import SapioTee.Proofs.Guest
import SapioTee.Proofs.GuestMemory

/-!
# The two sides of the guest ABI

The host allocates, copies and calls through the WASM engine; the guest's
`sapio_alloc_v1` and `evaluate` are the code on the other side. `Compiles`
is what joins them: the engine runs a module as the guest source reads, up to
traps. The statics of an instance are an `Arena`, and they are not inside the
array they describe, so what the host copies into the array leaves them alone.

The host's four limits add up to the arena exactly. So an allocation that
the host asks for never fails, the slices the guest takes are the four inputs
byte for byte, and the host's answer is the predicate's.
-/

namespace SapioTee

open Lib Guest

variable {T : Types} {C : Crates T}

/-- The address is in the array of the arena. -/
def Guest.Arena.Covers (arena : Arena) (a : Nat) : Prop :=
  arena.start ≤ a ∧ a < arena.start + inputCapacity

/-- The engine runs `module` as a guest with this predicate, whenever a call
returns. `Instance store arena` reads the statics of an instance. -/
structure Compiles (C : Crates T) (version : WasmVersion) (module : Bytes)
    (evaluator : Arena → Arguments → Option Bool) where
  Instance : Store T → Arena → Prop
  fresh : ∀ {store}, C.instantiate version module = .ok store →
    ∃ arena, Instance store arena ∧ arena.used = 0
  inside : ∀ {store arena}, Instance store arena →
    arena.start + inputCapacity ≤ store.memory.length
  /-- A write into the array does not touch the statics. -/
  written : ∀ {store arena memory}, Instance store arena →
    memory.length = store.memory.length →
    (∀ a, ¬ arena.Covers a → memory[a]? = store.memory[a]?) →
    Instance ⟨memory, store.guest⟩ arena
  allocates : ∀ {store arena size pointer next}, Instance store arena →
    C.allocate store size = (.ok pointer, next) →
    pointer = (arena.sapioAllocV1 size.toUInt32).1.toInt32 ∧
      Instance next (arena.sapioAllocV1 size.toUInt32).2
  evaluates : ∀ {store arena args result next}, Instance store arena →
    C.evaluate store args = (.ok result, next) →
    result = Guest.evaluate evaluator arena store.memory
      (args.map Int32.toUInt32)

/-- No call of an instance traps or runs out of fuel. -/
structure Finishes {version : WasmVersion} {module : Bytes}
    {evaluator : Arena → Arguments → Option Bool}
    (compiled : Compiles C version module evaluator) : Prop where
  allocate : ∀ {store arena} size, compiled.Instance store arena →
    ∃ pointer next, C.allocate store size = (.ok pointer, next)
  evaluate : ∀ {store arena} args, compiled.Instance store arena →
    ∃ result next, C.evaluate store args = (.ok result, next)

variable {version : WasmVersion} {module : Bytes}
  {evaluator : Arena → Arguments → Option Bool}

/-- What the arena still has to hold. -/
def totalBytes (inputs : List Bytes) : Nat := (inputs.map List.length).sum

theorem totalBytes_cons (bytes : Bytes) (inputs : List Bytes) :
    totalBytes (bytes :: inputs) = bytes.length + totalBytes inputs := by
  rw [totalBytes, List.map_cons, List.sum_cons]
  rfl

/-! ## One allocation -/

/-- The host passes the length as a signed word and reads the pointer back
as an unsigned one. -/
theorem toUInt32_ofNat (n : Nat) :
    (Int32.ofNat n).toUInt32 = UInt32.ofNat n := Int32.toUInt32_ofNat'

/-- An allocation with room for it is the next range of the arena. -/
theorem Compiles.allocated (compiled : Compiles C version module evaluator)
    {store next : Store T} {arena : Arena} {n : Nat} {pointer : Int32}
    (hinstance : compiled.Instance store arena) (hpos : 0 < n)
    (hroom : arena.used + n ≤ inputCapacity)
    (hcall : C.allocate store (Int32.ofNat n) = (.ok pointer, next)) :
    pointer.toUInt32.toNat = arena.start + arena.used ∧
      compiled.Instance next
        { arena with used := arena.used + n, used_le := hroom } := by
  have hcapacity : inputCapacity = 1245184 := rfl
  have hinside := arena.inside
  obtain ⟨hpointer, hnext⟩ := compiled.allocates hinstance hcall
  rw [toUInt32_ofNat, Arena.sapioAllocV1_eq hroom] at hpointer hnext
  refine ⟨?_, hnext⟩
  rw [hpointer, UInt32.toUInt32_toInt32]
  exact UInt32.toNat_ofNat_of_lt' (show arena.start + arena.used < 2 ^ 32 by
    omega)

/-! ## The whole loop -/

/-- A nonempty input is inside the first `used` bytes of the array. -/
def Placed (start used : Nat) (bytes : Bytes) (r : Range) : Prop :=
  bytes ≠ [] → start ≤ r.start ∧ r.start + bytes.length ≤ start + used

/-- A loop that goes through has used up what it was asked for and placed
every input. -/
theorem Allocations.placed (compiled : Compiles C version module evaluator)
    {ranges all : List Range} {store left : Store T} {inputs : List Bytes}
    (h : Allocations C ranges store inputs all left) {arena : Arena}
    (hinstance : compiled.Instance store arena)
    (hroom : arena.used + totalBytes inputs ≤ inputCapacity) :
    ∃ last : Arena, compiled.Instance left last ∧ last.start = arena.start ∧
      last.used = arena.used + totalBytes inputs ∧
      ∃ new, all = ranges ++ new ∧
        List.Forall₂ (Placed arena.start last.used) inputs new := by
  induction h generalizing arena with
  | nil ranges store =>
      exact ⟨arena, hinstance, rfl, rfl, [], (List.append_nil ranges).symm,
        .nil⟩
  | @empty ranges all store left inputs _ ih =>
      rw [totalBytes_cons, List.length_nil, Nat.zero_add] at hroom
      obtain ⟨last, hlast, hstart, hused, new, hnew, hplaced⟩ :=
        ih hinstance hroom
      refine ⟨last, hlast, hstart, ?_, ⟨0, 0⟩ :: new, ?_,
        .cons (fun hne => absurd rfl hne) hplaced⟩
      · rw [hused, totalBytes_cons, List.length_nil, Nat.zero_add]
      · rw [hnew, List.append_assoc]
        rfl
  | @region ranges all store next left bytes inputs pointer hne hcall _ _ _ ih =>
      have hpos := List.length_pos_iff.mpr hne
      rw [totalBytes_cons] at hroom ⊢
      obtain ⟨hpointer, hnext⟩ := compiled.allocated hinstance hpos
        (show arena.used + bytes.length ≤ inputCapacity by omega) hcall
      obtain ⟨last, hlast, hstart, hused, new, hnew, hplaced⟩ :=
        ih hnext (show arena.used + bytes.length + totalBytes inputs
          ≤ inputCapacity by omega)
      have htotal : last.used
          = arena.used + bytes.length + totalBytes inputs := hused
      refine ⟨last, hlast, hstart, by omega, regionOf pointer bytes :: new, ?_,
        .cons (fun _ => ?_) hplaced⟩
      · rw [hnew, List.append_assoc]
        rfl
      · show arena.start ≤ pointer.toUInt32.toNat ∧
          pointer.toUInt32.toNat + bytes.length ≤ arena.start + last.used
        omega

/-- What the host has handed out so far lies below the next range. -/
def Below (stop : Nat) (r : Range) : Prop := r.stop ≤ r.start ∨ r.stop ≤ stop

/-- An arena with room for the inputs refuses none of them. -/
theorem Compiles.allocateAll_ok
    {compiled : Compiles C version module evaluator}
    (finishes : Finishes compiled) {inputs : List Bytes} {ranges : List Range}
    {store : Store T} {arena : Arena}
    (hinstance : compiled.Instance store arena)
    (hlen : ∀ bytes ∈ inputs, bytes.length ≤ maxSignedViewBytes)
    (hroom : arena.used + totalBytes inputs ≤ inputCapacity)
    (hranges : ∀ r ∈ ranges, Below (arena.start + arena.used) r) :
    ∃ result, allocateAll C version inputs ranges store = .ok result := by
  induction inputs generalizing ranges store arena with
  | nil => exact ⟨_, rfl⟩
  | cons bytes inputs ih =>
      have hrest : ∀ x ∈ inputs, x.length ≤ maxSignedViewBytes :=
        fun x hx => hlen x (List.mem_cons_of_mem bytes hx)
      rw [totalBytes_cons] at hroom
      by_cases hne : bytes = []
      · subst hne
        show ∃ result, allocateAll C version inputs (ranges ++ [⟨0, 0⟩]) store
          = .ok result
        refine ih hinstance hrest (by rwa [List.length_nil, Nat.zero_add]
          at hroom) ?_
        intro r hr
        rcases List.mem_append.mp hr with hr | hr
        · exact hranges r hr
        · rw [List.mem_singleton.mp hr]
          exact .inl (Nat.le_refl 0)
      · have hpos := List.length_pos_iff.mpr hne
        obtain ⟨pointer, next, hcall⟩ :=
          finishes.allocate (Int32.ofNat bytes.length) hinstance
        obtain ⟨hpointer, hnext⟩ := compiled.allocated hinstance hpos
          (show arena.used + bytes.length ≤ inputCapacity by omega) hcall
        have hstop : (regionOf pointer bytes).stop
            = arena.start + arena.used + bytes.length := by
          rw [← hpointer]
          rfl
        have hinside := compiled.inside hnext
        have hfits : (regionOf pointer bytes).stop ≤ next.memory.length := by
          have hcover : arena.start + inputCapacity ≤ next.memory.length :=
            hinside
          omega
        have hapart : ∀ previous ∈ ranges,
            (regionOf pointer bytes).Apart previous := by
          intro previous hmem a hboth
          have hlow : pointer.toUInt32.toNat ≤ a := hboth.1.1
          have hprevious := hboth.2
          unfold Range.Holds at hprevious
          rcases hranges previous hmem with hempty | hbelow
          · omega
          · omega
        have hgood := not_bad_of_region hcall hfits hapart
        rcases @allocateAll_cons T C version bytes inputs ranges store hne
          (hlen bytes List.mem_cons_self) with
          ⟨hbad, -⟩ | ⟨pointer', next', hcall', -, -, heq⟩
        · exact absurd hbad hgood
        · rw [hcall] at hcall'
          injection hcall' with hpointer' hnext'
          injection hpointer' with hpointer'
          subst hpointer' hnext'
          rw [heq]
          refine ih hnext hrest (show arena.used + bytes.length +
            totalBytes inputs ≤ inputCapacity by omega) ?_
          intro r hr
          show Below (arena.start + (arena.used + bytes.length)) r
          rcases List.mem_append.mp hr with hr | hr
          · rcases hranges r hr with hempty | hbelow
            · exact .inl hempty
            · exact .inr (by omega)
          · rw [List.mem_singleton.mp hr]
            exact .inr (by omega)

/-! ## What the guest takes back -/

theorem inputSlice_eq {arena : Arena} {memory bytes : Bytes}
    {pointer length : UInt32} (hlength : length.toNat = bytes.length)
    (hplaced : bytes ≠ [] → arena.start ≤ pointer.toNat ∧
      pointer.toNat + bytes.length ≤ arena.start + arena.used)
    (hcontents : (memory.drop pointer.toNat).take bytes.length = bytes) :
    inputSlice arena memory pointer length = some bytes := by
  unfold inputSlice
  by_cases hzero : length = 0
  · rw [if_pos hzero]
    rw [hzero] at hlength
    rw [List.length_eq_zero_iff.mp hlength.symm]
  · have hne : bytes ≠ [] := by
      intro hempty
      rw [hempty] at hlength
      exact hzero (UInt32.toNat_inj.mp hlength)
    obtain ⟨hlow, hhigh⟩ := hplaced hne
    have hused := arena.used_le
    have hinside := arena.inside
    have hstart := arena.start_pos
    have hadd : checkedAdd32 (pointer.toNat - arena.start) length.toNat
        = some (pointer.toNat - arena.start + length.toNat) := by
      rw [checkedAdd32, if_pos (by omega)]
    rw [if_neg hzero, if_neg (by omega), hadd]
    simp only []
    rw [if_neg (by omega), hlength, hcontents]

theorem get_map_toUInt32 (args : Vector Int32 8) (i : Fin 8) :
    (args.map Int32.toUInt32).get i = (args.get i).toUInt32 := by
  show getElem (args.map Int32.toUInt32) i.val i.isLt = _
  rw [Vector.getElem_map]
  rfl

/-- The answer of a predicate, as the guest returns it. -/
def answerCode : Option Bool → Int32
  | some true => 1
  | some false => 0
  | none => -1

/-- A guest that is called with its inputs in place runs its predicate on
exactly these. -/
theorem evaluate_of_sees {program parameters view witness : Bytes}
    {regions : Vector Range 4} {left called : Store T}
    {args : Vector Int32 8} {arena : Arena}
    (hlimits : WithinLimits program parameters view witness)
    (hsees : Sees #v[program, parameters, view, witness] regions left called
      args)
    (hplaced : ∀ i : Fin 4, Placed arena.start arena.used
      (#v[program, parameters, view, witness].get i) (regions.get i)) :
    Guest.evaluate evaluator arena called.memory (args.map Int32.toUInt32)
      = answerCode (evaluator arena ⟨program, parameters, view, witness⟩) := by
  have hslice : ∀ i : Fin 4, inputSlice arena called.memory
      (args.get ⟨2 * i, by omega⟩).toUInt32
      (args.get ⟨2 * i + 1, by omega⟩).toUInt32
        = some (#v[program, parameters, view, witness].get i) := by
    intro i
    refine inputSlice_eq (hsees.length i) ?_ ?_
    · rw [hsees.pointer i]
      exact hplaced i
    · rw [hsees.pointer i]
      exact hsees.contents i
  have hargument : maxArgument = maxProgramBytes := rfl
  have hview : maxView = maxSignedViewBytes := rfl
  have hparameters : maxArgument = maxParameterBytes := rfl
  have hwitness : maxArgument = maxWitnessBytes := rfl
  have hlengths : ¬ ((args.get 1).toUInt32.toNat > maxArgument ∨
      (args.get 3).toUInt32.toNat > maxArgument ∨
      (args.get 7).toUInt32.toNat > maxArgument ∨
      (args.get 5).toUInt32.toNat > maxView) := by
    have h0 : (args.get 1).toUInt32.toNat = program.length := hsees.length 0
    have h1 : (args.get 3).toUInt32.toNat = parameters.length :=
      hsees.length 1
    have h2 : (args.get 5).toUInt32.toNat = view.length := hsees.length 2
    have h3 : (args.get 7).toUInt32.toNat = witness.length := hsees.length 3
    have hp := hlimits.program
    have ha := hlimits.parameters
    have hv := hlimits.view
    have hw := hlimits.witness
    omega
  have harguments : arguments arena called.memory (args.map Int32.toUInt32)
      = some ⟨program, parameters, view, witness⟩ := by
    have h0 : inputSlice arena called.memory (args.get 0).toUInt32
      (args.get 1).toUInt32 = some program := hslice 0
    have h1 : inputSlice arena called.memory (args.get 2).toUInt32
      (args.get 3).toUInt32 = some parameters := hslice 1
    have h2 : inputSlice arena called.memory (args.get 4).toUInt32
      (args.get 5).toUInt32 = some view := hslice 2
    have h3 : inputSlice arena called.memory (args.get 6).toUInt32
      (args.get 7).toUInt32 = some witness := hslice 3
    unfold arguments
    simp only [get_map_toUInt32, h0, h1, h2, h3, Option.bind_eq_bind,
      Option.bind_some]
    rfl
  unfold Guest.evaluate
  simp only [get_map_toUInt32]
  rw [if_neg hlengths, harguments]
  rfl

/-! ## The host's answer -/

/-- The four limits of the host fill the arena. -/
theorem WithinLimits.total {program parameters view witness : Bytes}
    (h : WithinLimits program parameters view witness) :
    totalBytes [program, parameters, view, witness] ≤ inputCapacity := by
  have hcapacity : inputCapacity = maxProgramBytes + maxParameterBytes +
      maxSignedViewBytes + maxWitnessBytes := rfl
  have hprogram := h.program
  have hparameters := h.parameters
  have hview := h.view
  have hwitness := h.witness
  simp only [totalBytes_cons]
  show program.length + (parameters.length + (view.length +
    (witness.length + 0))) ≤ inputCapacity
  omega

/-- The store of the call is an instance whose arena holds the four inputs,
and they are where the arguments say. -/
theorem Compiles.called (compiled : Compiles C version module evaluator)
    (hgrow : NeverShrinks C) {program parameters view witness : Bytes}
    (hlimits : WithinLimits program parameters view witness)
    {store called : Store T} {args : Vector Int32 8} {arena : Arena}
    (hinstance : compiled.Instance store arena) (hfresh : arena.used = 0)
    (h : guestCall C version #v[program, parameters, view, witness] store
      = .ok (called, args)) :
    ∃ last, compiled.Instance called last ∧ last.start = arena.start ∧
      last.used = totalBytes [program, parameters, view, witness] ∧
      Guest.evaluate evaluator last called.memory (args.map Int32.toUInt32)
        = answerCode (evaluator last ⟨program, parameters, view, witness⟩) := by
  have htotal := hlimits.total
  obtain ⟨⟨all, left⟩, hloop, h⟩ := bind_ok h
  have hruns := allocations_of_ok hlimits.bounded hloop
  obtain ⟨regions, called', rfl, hcopy, hsees⟩ :=
    @Allocations.sees T C hgrow #v[program, parameters, view, witness] store
      left all hlimits.bounded hruns
  obtain ⟨store', hcopy', h⟩ := bind_ok h
  rw [hcopy] at hcopy'
  injection hcopy' with hcopy'
  injection h with h
  injection h with hcalled hargs
  subst hcopy' hcalled
  rw [hargs] at hsees
  obtain ⟨last, hlast, hstart, hused, new, hnew, hplaced⟩ :=
    hruns.placed compiled hinstance (show arena.used +
      totalBytes [program, parameters, view, witness] ≤ inputCapacity by omega)
  rw [List.nil_append] at hnew
  subst hnew
  rw [hfresh, Nat.zero_add] at hused
  have hat : ∀ i : Fin 4, Placed last.start last.used
      #v[program, parameters, view, witness][i] regions[i] := by
    intro i
    rw [hstart]
    exact hplaced.get i.isLt (Nat.lt_of_lt_of_eq i.isLt
      (Vector.length_toList).symm)
  refine ⟨last, ?_, hstart, hused, evaluate_of_sees hlimits hsees hat⟩
  have hguest := hsees.guest
  have hwritten := @compiled.written left last called'.memory hlast hsees.size
    (by
      intro a hout
      refine hsees.frame a ?_
      intro i hholds
      have hregion := hsees.region i
      have hbytes : #v[program, parameters, view, witness][i] ≠ [] := by
        intro hempty
        have hstop := hregion.stop_eq
        rw [hempty, List.length_nil] at hstop
        unfold Range.Holds at hholds
        omega
      have hin := hat i hbytes
      have hstop := hregion.stop_eq
      have hcover := last.used_le
      unfold Range.Holds at hholds
      refine hout ⟨?_, ?_⟩
      · omega
      · omega)
  rw [← hguest] at hwritten
  exact hwritten

/-- The predicate's answer, as the host reports it. -/
def hostAnswer : Option Bool → Except Fault Bool
  | some b => .ok b
  | none => failure "WASM evaluator must return exactly zero or one"

theorem readAnswer_answerCode {called next : Store T} {args : Vector Int32 8}
    {answer : Option Bool}
    (h : C.evaluate called args = (.ok (answerCode answer), next)) :
    readAnswer C version (called, args) = hostAnswer answer := by
  have hone : ¬ (1 : Int32) = 0 := by decide
  have hminus : ¬ (-1 : Int32) = 0 ∧ ¬ (-1 : Int32) = 1 := by decide
  unfold readAnswer
  rw [h]
  match answer with
  | some true =>
      show (if (1 : Int32) = 0 then _ else if (1 : Int32) = 1 then _ else _) = _
      rw [if_neg hone, if_pos rfl]
      rfl
  | some false => rfl
  | none =>
      show (if (-1 : Int32) = 0 then _ else if (-1 : Int32) = 1 then _ else _)
        = _
      rw [if_neg hminus.1, if_neg hminus.2]
      rfl

theorem hostAnswer_ok {answer : Option Bool} {b : Bool}
    (h : hostAnswer answer = .ok b) : answer = some b := by
  cases answer with
  | none => cases h
  | some x =>
      injection h with h
      rw [h]

/-- A call that returned has answered with the predicate's answer. -/
theorem Compiles.answered (compiled : Compiles C version module evaluator)
    (hgrow : NeverShrinks C) {program parameters view witness : Bytes}
    (hlimits : WithinLimits program parameters view witness)
    {store called next : Store T} {args : Vector Int32 8} {arena : Arena}
    {result : Int32} (hinstance : compiled.Instance store arena)
    (hfresh : arena.used = 0)
    (h : guestCall C version #v[program, parameters, view, witness] store
      = .ok (called, args))
    (hresult : C.evaluate called args = (.ok result, next)) :
    ∃ last : Arena, last.start = arena.start ∧
      last.used = totalBytes [program, parameters, view, witness] ∧
      readAnswer C version (called, args)
        = hostAnswer (evaluator last ⟨program, parameters, view, witness⟩) := by
  obtain ⟨last, hlast, hstart, hused, hguest⟩ :=
    compiled.called hgrow hlimits hinstance hfresh h
  have hcode := compiled.evaluates hlast hresult
  rw [hguest] at hcode
  rw [hcode] at hresult
  exact ⟨last, hstart, hused, readAnswer_answerCode hresult⟩

/-- What the host checks of a module before it calls it. -/
structure Runnable (C : Crates T) (version : WasmVersion) (module : Bytes) :
    Prop where
  bytes : checkModuleBytes module = .ok ()
  budget : checkCompilationBudget C version module = .ok ()
  instantiates : ∃ store, C.instantiate version module = .ok store

/-- With inputs inside the limits the host reaches the guest's `evaluate`,
and its answer is the predicate's. -/
theorem Compiles.evaluate_eq {compiled : Compiles C version module evaluator}
    (hgrow : NeverShrinks C) (finishes : Finishes compiled)
    (hrunnable : Runnable C version module)
    {program parameters view witness : Bytes} {input : SigningInput}
    (hview : encodeView version input = .ok view)
    (hlimits : WithinLimits program parameters view witness) :
    ∃ arena : Arena,
      arena.used = totalBytes [program, parameters, view, witness] ∧
      SapioTee.evaluate C version module program parameters input witness
        = hostAnswer (evaluator arena
          ⟨program, parameters, view, witness⟩) := by
  have htotal := hlimits.total
  obtain ⟨store, hstore⟩ := hrunnable.instantiates
  obtain ⟨arena, hinstance, hfresh⟩ := compiled.fresh hstore
  have hnone : ∀ r ∈ [], Below (arena.start + arena.used) r :=
    fun r hr => absurd hr List.not_mem_nil
  obtain ⟨⟨all, left⟩, hloop⟩ := Compiles.allocateAll_ok finishes hinstance
    hlimits.bounded (by omega) hnone
  obtain ⟨regions, called, rfl, hcopy, -⟩ :=
    @Allocations.sees T C hgrow #v[program, parameters, view, witness]
      store left all hlimits.bounded (allocations_of_ok hlimits.bounded hloop)
  have hcall : guestCall C version #v[program, parameters, view, witness] store
      = .ok (called, evaluationArguments #v[program, parameters, view, witness]
        regions.toList) := by
    unfold guestCall
    show (allocateAll C version [program, parameters, view, witness] []
      store >>= _) = _
    rw [hloop, ok_bind]
    simp only [hcopy, ok_bind]
    rfl
  obtain ⟨last, hlast, -⟩ :=
    compiled.called hgrow hlimits hinstance hfresh hcall
  obtain ⟨result, next, hresult⟩ := finishes.evaluate (evaluationArguments
    #v[program, parameters, view, witness] regions.toList) hlast
  obtain ⟨last', -, hused, hanswer⟩ :=
    compiled.answered hgrow hlimits hinstance hfresh hcall hresult
  refine ⟨last', hused, ?_⟩
  have hwithin : ¬ (program.length > maxProgramBytes ∨
      parameters.length > maxParameterBytes ∨
      witness.length > maxWitnessBytes) := by
    have hp := hlimits.program
    have ha := hlimits.parameters
    have hw := hlimits.witness
    omega
  rw [evaluate_eq_call]
  unfold evaluationCall
  rw [hrunnable.bytes, ok_bind, hrunnable.budget, ok_bind, if_neg hwithin,
    hview, ok_bind, hstore]
  show (guestCall C version #v[program, parameters, view, witness] store
    >>= readAnswer C version) = _
  rw [hcall, ok_bind, hanswer]

/-- Whenever the host has an answer it is the predicate's. -/
theorem Compiles.evaluate_ok (compiled : Compiles C version module evaluator)
    (hgrow : NeverShrinks C) {program parameters witness : Bytes}
    {input : SigningInput} {b : Bool}
    (h : SapioTee.evaluate C version module program parameters input witness
      = .ok b) :
    ∃ view, ∃ arena : Arena, encodeView version input = .ok view ∧
      WithinLimits program parameters view witness ∧
      arena.used = totalBytes [program, parameters, view, witness] ∧
      evaluator arena ⟨program, parameters, view, witness⟩ = some b := by
  rw [evaluate_eq_call] at h
  obtain ⟨⟨called, args⟩, hreach, hread⟩ := bind_ok h
  obtain ⟨view, store, hview, hstore, hlimits, hcall⟩ :=
    evaluationCall_ok hreach
  obtain ⟨arena, hinstance, hfresh⟩ := compiled.fresh hstore
  obtain ⟨result, next, hresult⟩ : ∃ result next,
      C.evaluate called args = (.ok result, next) := by
    unfold readAnswer at hread
    split at hread
    · cases hread
    · next result next hresult => exact ⟨result, next, hresult⟩
  obtain ⟨last, -, hused, hanswer⟩ :=
    compiled.answered hgrow hlimits hinstance hfresh hcall hresult
  rw [hanswer] at hread
  exact ⟨view, last, hview, hlimits, hused, hostAnswer_ok hread⟩

/-- The host and the guest together compute the predicate: an answer of the
host is the predicate's on the four inputs, byte for byte; and if nothing
traps, every call whose inputs are within the host's limits is answered, with
the predicate's answer or, where it has none, with a refusal. -/
theorem host_answers_predicate {T : Types} (C : Crates T)
    (hgrow : NeverShrinks C) {version : WasmVersion} {module : Bytes}
    {evaluator : Arena → Arguments → Option Bool}
    (compiled : Compiles C version module evaluator)
    (program parameters witness : Bytes) (input : SigningInput) :
    (∀ b, SapioTee.evaluate C version module program parameters input witness
        = .ok b →
      ∃ view, ∃ arena : Arena, encodeView version input = .ok view ∧
        WithinLimits program parameters view witness ∧
        arena.used = totalBytes [program, parameters, view, witness] ∧
        evaluator arena ⟨program, parameters, view, witness⟩ = some b) ∧
    (Finishes compiled → Runnable C version module → ∀ view,
      encodeView version input = .ok view →
      WithinLimits program parameters view witness →
      ∃ arena : Arena,
        arena.used = totalBytes [program, parameters, view, witness] ∧
        SapioTee.evaluate C version module program parameters input witness
          = hostAnswer (evaluator arena
            ⟨program, parameters, view, witness⟩)) := by
  refine ⟨fun b h => compiled.evaluate_ok hgrow h, ?_⟩
  intro finishes hrunnable view hview hlimits
  exact Compiles.evaluate_eq hgrow finishes hrunnable hview hlimits

/-! ## An engine to run with

The counter is the first word of the memory and the array follows it. -/

theorem wordStart_pos : 0 < 4 := by decide

theorem wordStart_inside : 4 + inputCapacity ≤ 2 ^ 32 := by decide

def wordArena (memory : Bytes) : Option Arena :=
  if h : leNat (memory.take 4) ≤ inputCapacity then
    some ⟨4, leNat (memory.take 4), wordStart_pos, wordStart_inside, h⟩
  else none

/-- A guest of the source over that memory. -/
def wordCrates (base : Crates symbolicTypes)
    (evaluator : Arena → Arguments → Option Bool) : Crates symbolicTypes :=
  { base with
    instantiate := fun _ _ => .ok ⟨List.replicate (4 + inputCapacity) 0, ()⟩
    allocate := fun store size =>
      match wordArena store.memory with
      | none => (.error "no guest", store)
      | some arena =>
          (.ok (arena.sapioAllocV1 size.toUInt32).1.toInt32,
            ⟨leBytes 4 (arena.sapioAllocV1 size.toUInt32).2.used ++
              store.memory.drop 4, ()⟩)
    evaluate := fun store args =>
      match wordArena store.memory with
      | none => (.error "no guest", store)
      | some arena =>
          (.ok (Guest.evaluate evaluator arena store.memory
            (args.map Int32.toUInt32)), store) }

/-- The arena is the one in the memory, and all of it is there. -/
def WordInstance (store : Store symbolicTypes) (arena : Arena) : Prop :=
  wordArena store.memory = some arena ∧
    4 + inputCapacity ≤ store.memory.length

theorem wordArena_start {memory : Bytes} {arena : Arena}
    (h : wordArena memory = some arena) : arena.start = 4 := by
  unfold wordArena at h
  split at h
  · injection h with h
    rw [← h]
  · cases h

theorem wordArena_leBytes {arena : Arena} {rest : Bytes}
    (h : arena.start = 4) :
    wordArena (leBytes 4 arena.used ++ rest) = some arena := by
  have hcapacity : inputCapacity = 1245184 := rfl
  have hused := arena.used_le
  have htake : (leBytes 4 arena.used ++ rest).take 4
      = leBytes 4 arena.used :=
    List.take_left' (length_leBytes 4 arena.used)
  have hread : leNat ((leBytes 4 arena.used ++ rest).take 4)
      = arena.used := by
    rw [htake, leNat_leBytes (show arena.used < 256 ^ 4 by omega)]
  obtain ⟨start, used, hpos, hinside, hle⟩ := arena
  have hstart : start = 4 := h
  subst hstart
  unfold wordArena
  rw [dif_pos (by rw [hread]; exact hle)]
  simp only [hread]

theorem start_sapioAllocV1 (arena : Arena) (size : UInt32) :
    (arena.sapioAllocV1 size).2.start = arena.start := by
  unfold Arena.sapioAllocV1
  split
  · rfl
  · split
    · rfl
    · rfl

theorem WordInstance.fresh {store : Store symbolicTypes}
    (h : (⟨List.replicate (4 + inputCapacity) 0, ()⟩ : Store symbolicTypes)
      = store) :
    ∃ arena, WordInstance store arena ∧ arena.used = 0 := by
  have hword : leNat ((List.replicate (4 + inputCapacity) (0 : UInt8)).take 4)
      = 0 := by
    rw [List.take_replicate]
    decide
  subst h
  refine ⟨⟨4, 0, wordStart_pos, wordStart_inside, Nat.zero_le _⟩,
    ⟨?_, ?_⟩, rfl⟩
  · unfold wordArena
    rw [dif_pos (by rw [hword]; exact Nat.zero_le _)]
    simp only [hword]
  · rw [List.length_replicate]

theorem WordInstance.inside {store : Store symbolicTypes} {arena : Arena}
    (h : WordInstance store arena) :
    arena.start + inputCapacity ≤ store.memory.length := by
  rw [wordArena_start h.1]
  exact h.2

theorem WordInstance.written {store : Store symbolicTypes} {arena : Arena}
    {memory : Bytes} (h : WordInstance store arena)
    (hsize : memory.length = store.memory.length)
    (hframe : ∀ a, ¬ arena.Covers a → memory[a]? = store.memory[a]?) :
    WordInstance ⟨memory, store.guest⟩ arena := by
  obtain ⟨harena, hlength⟩ := h
  have htake : memory.take 4 = store.memory.take 4 := by
    refine List.ext_getElem? ?_
    intro a
    rw [List.getElem?_take, List.getElem?_take]
    split
    · next ha =>
        refine hframe a ?_
        rintro ⟨hlow, -⟩
        rw [wordArena_start harena] at hlow
        omega
    · rfl
  refine ⟨?_, ?_⟩
  · unfold wordArena at harena ⊢
    simp only [htake]
    exact harena
  · rw [hsize]
    exact hlength

theorem WordInstance.allocates {base : Crates symbolicTypes}
    {evaluator : Arena → Arguments → Option Bool}
    {store next : Store symbolicTypes} {arena : Arena} {size pointer : Int32}
    (h : WordInstance store arena)
    (hcall : (wordCrates base evaluator).allocate store size
      = (.ok pointer, next)) :
    pointer = (arena.sapioAllocV1 size.toUInt32).1.toInt32 ∧
      WordInstance next (arena.sapioAllocV1 size.toUInt32).2 := by
  obtain ⟨harena, hlength⟩ := h
  simp only [wordCrates, harena] at hcall
  injection hcall with hpointer hnext
  injection hpointer with hpointer
  refine ⟨hpointer.symm, ?_⟩
  rw [← hnext]
  refine ⟨wordArena_leBytes ?_, ?_⟩
  · rw [start_sapioAllocV1, wordArena_start harena]
  · rw [List.length_append, length_leBytes, List.length_drop]
    omega

theorem WordInstance.evaluates {base : Crates symbolicTypes}
    {evaluator : Arena → Arguments → Option Bool}
    {store next : Store symbolicTypes} {arena : Arena}
    {args : Vector Int32 8} {result : Int32} (h : WordInstance store arena)
    (hcall : (wordCrates base evaluator).evaluate store args
      = (.ok result, next)) :
    result = Guest.evaluate evaluator arena store.memory
      (args.map Int32.toUInt32) := by
  simp only [wordCrates, h.1] at hcall
  injection hcall with hresult _
  injection hresult with hresult
  exact hresult.symm

def wordCompiles (base : Crates symbolicTypes)
    (evaluator : Arena → Arguments → Option Bool) (version : WasmVersion)
    (module : Bytes) :
    Compiles (wordCrates base evaluator) version module evaluator where
  Instance := WordInstance
  fresh h := WordInstance.fresh (Except.ok.inj h)
  inside := WordInstance.inside
  written := WordInstance.written
  allocates := WordInstance.allocates
  evaluates := WordInstance.evaluates

theorem wordCompiles_finishes (base : Crates symbolicTypes)
    (evaluator : Arena → Arguments → Option Bool) (version : WasmVersion)
    (module : Bytes) :
    Finishes (wordCompiles base evaluator version module) := by
  constructor
  · rintro store arena size ⟨harena, -⟩
    simp only [wordCrates, harena]
    exact ⟨_, _, rfl⟩
  · rintro store arena args ⟨harena, -⟩
    simp only [wordCrates, harena]
    exact ⟨_, _, rfl⟩

theorem wordCrates_neverShrinks (base : Crates symbolicTypes)
    (evaluator : Arena → Arguments → Option Bool) :
    NeverShrinks (wordCrates base evaluator) := by
  intro store size
  simp only [wordCrates]
  split
  · exact Nat.le_refl _
  · rw [List.length_append, length_leBytes, List.length_drop]
    omega

def wordModule : Bytes := [0, 97, 115, 109, 1, 0, 0, 0]

theorem wordCrates_runnable {base : Crates symbolicTypes}
    (evaluator : Arena → Arguments → Option Bool) (version : WasmVersion)
    (h : base.parseAll wordModule = []) :
    Runnable (wordCrates base evaluator) version wordModule := by
  refine ⟨by decide, ?_, _, rfl⟩
  show checkPayloads version (base.parseAll wordModule) ⟨[], 0⟩ = .ok ()
  rw [h]
  rfl

/-- A predicate that reads two of its inputs. -/
def echoes (_ : Arena) (args : Arguments) : Option Bool :=
  if args.witness.isEmpty then none else some (args.witness == args.parameters)

theorem host_answers_predicate_echoes :
    SapioTee.evaluate (wordCrates symbolicCrates echoes) .v1 wordModule [] [5, 6]
      oneInputSpend [5, 6] = .ok true := by
  obtain ⟨view, hview, hlen⟩ : ∃ view,
      encodeView .v1 oneInputSpend = .ok view ∧
        view.length ≤ maxSignedViewBytes := ⟨_, rfl, by decide⟩
  obtain ⟨arena, -, hanswer⟩ := (host_answers_predicate
    (wordCrates symbolicCrates echoes)
    (wordCrates_neverShrinks symbolicCrates echoes)
    (wordCompiles symbolicCrates echoes .v1 wordModule) [] [5, 6] [5, 6]
    oneInputSpend).2 (wordCompiles_finishes symbolicCrates echoes .v1 _)
    (wordCrates_runnable echoes .v1 rfl) view hview
    ⟨by decide, by decide, hlen, by decide⟩
  exact hanswer

end SapioTee
