import SapioTee.Model.Vault
import SapioTee.Proofs.Guest
import SapioTee.Proofs.View

/-!
# The vault predicate authorizes exactly the documented sweep

`Sweep` is the rule in exact integers: the one input, selected, pays the one
output, which is the destination's, clears the dust floor and is short of
the input by at most the cap. The predicate is followed through the bytes
the client and the host wrote; at each of its early exits the rule has
already failed.
-/

namespace SapioTee

open Lib

namespace Vault

open Guest

/-- The transaction is a complete sweep to the destination within the cap. -/
def Sweep (maxFee : UInt64) (destination : Script) (input : SigningInput) :
    Prop :=
  input.psbt.unsignedTx.input.length = 1 ∧ input.inputIndex = 0 ∧
    ∃ prevout output,
      input.psbt.inputs.map PsbtInput.witnessUtxo = [some prevout] ∧
      input.psbt.unsignedTx.output = [output] ∧
      output.scriptPubkey = destination ∧ 330 ≤ output.value.toNat ∧
      output.value.toNat ≤ prevout.value.toNat ∧
      prevout.value.toNat ≤ output.value.toNat + maxFee.toNat

/-! ## Reading the parameters -/

theorem u64FromLe_u64Le (x : UInt64) : u64FromLe (u64Le x) = x := by
  have hword : leNat (u64Le x) = x.toNat := leNat_leBytes x.toNat_lt
  rw [u64FromLe, hword, UInt64.ofNat_toNat]

theorem readParameters_ok {maxFee : UInt64} {destination : Script}
    {parameters : Bytes}
    (h : instanceParameters maxFee destination = .ok parameters)
    (hlen : parameters.length < 2 ^ 32) :
    readParameters parameters = some (maxFee, destination) := by
  unfold instanceParameters at h
  split at h
  · cases h
  · next scriptLen hsize =>
      injection h with h
      rw [List.append_assoc] at h
      have hlength := (tryU32_eq_some hsize).2
      have hon := @Reader.on_new parameters
        (u64Le maxFee ++ (u32Le scriptLen ++ (destination ++ []))) hlen
        (by rw [List.append_nil, h])
      obtain ⟨params₁, htake₁, hon₁⟩ := hon.take (length_u64Le _).symm
      obtain ⟨params₂, htake₂, hon₂⟩ := hon₁.u32
      obtain ⟨params₃, htake₃, hon₃⟩ := hon₂.take hlength
      unfold readParameters
      simp only [htake₁, htake₂, htake₃, hon₃.isFinished, u64FromLe_u64Le,
        Bool.not_true, Bool.false_eq_true, if_false, Option.bind_eq_bind,
        Option.bind_some]
      rfl

/-! ## Reading the view -/

/-- The comparison in `u64`, read in exact integers. -/
theorem settles_eq (maxFee : UInt64) (destination : Bytes)
    (inputValue outputValue : UInt64) (outputScript : Bytes) :
    settles maxFee destination inputValue outputValue outputScript
      = some (decide (outputScript = destination ∧ 330 ≤ outputValue.toNat ∧
        outputValue.toNat ≤ inputValue.toNat ∧
        inputValue.toNat ≤ outputValue.toNat + maxFee.toNat)) := by
  have hfloor : (330 ≤ outputValue) = (330 ≤ outputValue.toNat) := rfl
  unfold settles checkedSub
  by_cases hle : outputValue ≤ inputValue
  · have hnat : outputValue.toNat ≤ inputValue.toNat := hle
    have hfee : (inputValue - outputValue ≤ maxFee)
        ↔ inputValue.toNat ≤ outputValue.toNat + maxFee.toNat := by
      rw [UInt64.le_iff_toNat_le, UInt64.toNat_sub_of_le _ _ hle]
      omega
    rw [if_pos hle]
    simp only [hfloor, hfee, hnat, true_and, Bool.decide_and, beq_eq_decide,
      Bool.and_assoc]
  · have hnat : ¬ outputValue.toNat ≤ inputValue.toNat := hle
    rw [if_neg hle]
    simp only [hnat, false_and, and_false, decide_false]

theorem readSweep_ok {maxFee : UInt64} {destination : Bytes} {reader : Reader}
    {txin : TxIn} {prevout : TxOut} {outputs : List TxOut}
    {outputCount : UInt32}
    (hon : reader.On (encodeInput txin prevout ++
      (u32Le outputCount ++ (outputs.flatMap encodeOutput ++ []))))
    (hcount : outputCount.toNat = outputs.length)
    (hprevout : prevout.scriptPubkey.length < 2 ^ 32)
    (houtputs : ∀ o ∈ outputs, o.scriptPubkey.length < 2 ^ 32) :
    readSweep maxFee destination reader
      = match outputs with
        | [output] => settles maxFee destination prevout.value output.value
            output.scriptPubkey
        | _ => some false := by
  rw [encodeInput] at hon
  simp only [List.append_assoc] at hon
  obtain ⟨r₁, htake₁, hon₁⟩ := hon.take (OutPoint.length_encode _).symm
  obtain ⟨r₂, htake₂, hon₂⟩ := hon₁.take (length_u32Le _).symm
  obtain ⟨r₃, htake₃, hon₃⟩ := hon₂.take (length_u64Le _).symm
  obtain ⟨r₄, htake₄, hon₄⟩ := hon₃.u32
  obtain ⟨r₅, htake₅, hon₅⟩ := hon₄.take (asU32_toNat hprevout)
  obtain ⟨r₆, htake₆, hon₆⟩ := hon₅.u32
  unfold readSweep
  simp only [htake₁, htake₂, htake₃, htake₄, htake₅, htake₆, u64FromLe_u64Le,
    Option.bind_eq_bind, Option.bind_some]
  by_cases hone : outputCount = 1
  · rw [if_neg (not_not.mpr hone)]
    rw [hone] at hcount
    obtain ⟨output, rfl⟩ := List.length_eq_one_iff.mp hcount.symm
    have hscript := houtputs output List.mem_cons_self
    rw [List.flatMap_cons, List.flatMap_nil, List.append_nil, encodeOutput]
      at hon₆
    simp only [List.append_assoc] at hon₆
    obtain ⟨r₇, htake₇, hon₇⟩ := hon₆.take (length_u64Le _).symm
    obtain ⟨r₈, htake₈, hon₈⟩ := hon₇.u32
    obtain ⟨r₉, htake₉, hon₉⟩ := hon₈.take (asU32_toNat hscript)
    simp only [htake₇, htake₈, htake₉, hon₉.isFinished, u64FromLe_u64Le,
      Bool.not_true, Bool.false_eq_true, if_false, Option.bind_some]
  · rw [if_pos hone]
    split
    · next output _ =>
        exact absurd (UInt32.toNat_inj.mp hcount) hone
    · rfl

/-! ## The whole predicate -/

/-- With one selected input, the rule is what the last comparison decides. -/
theorem sweep_iff {maxFee : UInt64} {destination : Script}
    {input : SigningInput} {prevout : TxOut}
    (hinputs : input.psbt.unsignedTx.input.length = 1)
    (hindex : input.inputIndex = 0)
    (hprevouts : input.psbt.inputs.map PsbtInput.witnessUtxo
      = [prevout].map some) :
    Sweep maxFee destination input ↔
      ∃ output, input.psbt.unsignedTx.output = [output] ∧
        settles maxFee destination prevout.value output.value
          output.scriptPubkey = some true := by
  constructor
  · rintro ⟨-, -, prevout', output, hprevouts', houtput, hrule⟩
    rw [hprevouts'] at hprevouts
    injection hprevouts with hsame _
    injection hsame with hsame
    subst hsame
    exact ⟨output, houtput, by rw [settles_eq, decide_eq_true hrule]⟩
  · rintro ⟨output, houtput, hsettles⟩
    rw [settles_eq] at hsettles
    injection hsettles with hrule
    exact ⟨hinputs, hindex, prevout, output, hprevouts, houtput,
      of_decide_eq_true hrule⟩

theorem settles_isSome (maxFee : UInt64) (destination : Bytes)
    (inputValue outputValue : UInt64) (outputScript : Bytes) :
    ∃ answer, settles maxFee destination inputValue outputValue outputScript
      = some answer := ⟨_, settles_eq _ _ _ _ _⟩

/-- The predicate reads any view the host encodes to a first exit or to its
last comparison. -/
theorem evaluate_eq {maxFee : UInt64} {destination : Script}
    {parameters view : Bytes} {input : SigningInput}
    (hparameters : instanceParameters maxFee destination = .ok parameters)
    (hlen : parameters.length ≤ maxParameterBytes)
    (hview : encodeView .v1 input = .ok view) :
    ∃ answer, evaluate ⟨[], parameters, view, []⟩ = some answer ∧
      (answer = true ↔ Sweep maxFee destination input) := by
  have hmax : maxSignedViewBytes = 1048576 := rfl
  have hmaxParameters : maxParameterBytes = 65536 := rfl
  obtain ⟨prevouts, tail, inputIndex, inputCount, outputCount, henc⟩ :=
    encodeView_ok hview
  have htail : [] = tail := Except.ok.inj henc.tail_eq
  have hviewLen := henc.length_eq
  have hbounded := henc.bounded
  have hcount := length_prevouts henc.prevouts_eq
  have hread := readParameters_ok hparameters (by omega)
  have hparts : view = (i32Le input.psbt.unsignedTx.version ++
      u32Le input.psbt.unsignedTx.lockTime) ++ (u32Le inputIndex ++
      (u32Le inputCount ++ ((input.psbt.unsignedTx.input.zip prevouts).flatMap
        (fun x => encodeInput x.1 x.2) ++ (u32Le outputCount ++
        (input.psbt.unsignedTx.output.flatMap encodeOutput ++ []))))) := by
    rw [henc.view_eq, ← htail]
    simp only [List.append_assoc, List.append_nil]
  have hon := Reader.on_new (show view.length < 2 ^ 32 by omega) hparts
  obtain ⟨r₁, htake₁, hon₁⟩ := hon.take (n := 8) (by
    rw [List.length_append, length_i32Le, length_u32Le])
  obtain ⟨r₂, htake₂, hon₂⟩ := hon₁.u32
  obtain ⟨r₃, htake₃, hon₃⟩ := hon₂.u32
  unfold evaluate
  simp only [List.isEmpty_nil, Bool.not_true, Bool.or_self, Bool.false_eq_true,
    if_false, hread, htake₁, htake₂, htake₃, Option.bind_eq_bind,
    Option.bind_some]
  by_cases hone : inputIndex ≠ 0 ∨ inputCount ≠ 1
  · rw [if_pos hone]
    refine ⟨false, rfl, fun h => (nomatch h), ?_⟩
    rintro ⟨hinputs, hindex, -⟩
    rw [← henc.inputCount_eq] at hinputs
    rw [← henc.index_eq] at hindex
    rcases hone with hne | hne
    · exact absurd (UInt32.toNat_inj.mp hindex) hne
    · exact absurd (UInt32.toNat_inj.mp hinputs) hne
  · rw [if_neg hone]
    obtain ⟨hindex, hinputs⟩ := not_or.mp hone
    have hindexZero := henc.index_eq
    have hinputsOne := henc.inputCount_eq
    rw [not_not.mp hindex] at hindexZero
    rw [not_not.mp hinputs] at hinputsOne
    obtain ⟨txin, htxin⟩ := List.length_eq_one_iff.mp hinputsOne.symm
    obtain ⟨prevout, rfl⟩ :=
      List.length_eq_one_iff.mp (hcount.trans hinputsOne.symm)
    have hprevout := script_le_inputBytes (List.mem_singleton_self prevout)
    rw [htxin, List.zip_cons_cons, List.flatMap_cons, List.zip_nil_left,
      List.flatMap_nil, List.append_nil] at hon₃
    have hscript : prevout.scriptPubkey.length < 2 ^ 32 := by omega
    have hscripts : ∀ o ∈ input.psbt.unsignedTx.output,
        o.scriptPubkey.length < 2 ^ 32 := by
      intro o ho
      have hle := script_le_outputBytes ho
      omega
    rw [sweep_iff hinputsOne.symm hindexZero.symm henc.prevouts_eq,
      readSweep_ok hon₃ henc.outputCount_eq hscript hscripts]
    split
    · next output houtput =>
        obtain ⟨answer, hanswer⟩ := settles_isSome maxFee destination
          prevout.value output.value output.scriptPubkey
        refine ⟨answer, hanswer, ?_⟩
        constructor
        · rintro rfl
          exact ⟨output, houtput, hanswer⟩
        · rintro ⟨output', houtput', hsettles⟩
          rw [houtput] at houtput'
          injection houtput' with hsame _
          rw [← hsame, hanswer] at hsettles
          exact Option.some.inj hsettles
    · next hnone =>
        refine ⟨false, rfl, fun h => (nomatch h), ?_⟩
        rintro ⟨output, houtput, -⟩
        exact absurd houtput (hnone output)

/-- On the parameters the contract commits to and a view the host encodes,
the predicate accepts exactly the sweep and otherwise answers false. -/
theorem evaluate_sweep (maxFee : UInt64) (destination : Script)
    (parameters view : Bytes) (input : SigningInput)
    (hparameters : instanceParameters maxFee destination = .ok parameters)
    (hlen : parameters.length ≤ maxParameterBytes)
    (hview : encodeView .v1 input = .ok view) :
    (evaluate ⟨[], parameters, view, []⟩ = some true ↔
      Sweep maxFee destination input) ∧
    (¬ Sweep maxFee destination input →
      evaluate ⟨[], parameters, view, []⟩ = some false) := by
  obtain ⟨answer, hanswer, hiff⟩ := evaluate_eq hparameters hlen hview
  rw [hanswer, ← hiff]
  constructor
  · exact ⟨Option.some.inj, congrArg some⟩
  · intro hnot
    cases answer with
    | true => exact absurd rfl hnot
    | false => rfl

theorem evaluate_sweep_oneInputSpend :
    ∃ parameters view, instanceParameters 100 [81] = .ok parameters ∧
      encodeView .v1 oneInputSpend = .ok view ∧
      evaluate ⟨[], parameters, view, []⟩ = some true := by
  obtain ⟨parameters, hparameters, hlen⟩ : ∃ parameters,
      instanceParameters 100 [81] = .ok parameters ∧
        parameters.length ≤ maxParameterBytes := ⟨_, rfl, by decide⟩
  obtain ⟨view, hview⟩ : ∃ view, encodeView .v1 oneInputSpend = .ok view :=
    ⟨_, rfl⟩
  refine ⟨parameters, view, hparameters, hview, ?_⟩
  exact (evaluate_sweep 100 [81] parameters view oneInputSpend hparameters hlen
    hview).1.mpr ⟨rfl, rfl, ⟨1000, [82]⟩, ⟨900, [81]⟩, rfl, rfl, rfl, by decide,
      by decide, by decide⟩

end Vault

end SapioTee
