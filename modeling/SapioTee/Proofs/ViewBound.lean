import SapioTee.Proofs.View

/-!
# The size bound of a view is exact

The size pass adds one amount after another and refuses at the first sum
past a mebibyte; the bytes are written by another pass, over other lists.
Here the first pass is read as a fold of `addSize` over the amounts it adds,
so that what it answers is decided by their sum in unbounded integers:
`foldlM_addSize` is the one induction. The second pass has nothing left to
refuse but a missing internal key.
-/

namespace SapioTee

open Lib

/-! ## The amounts -/

/-- The script of the prevout a map carries. -/
def prevoutScript (map : PsbtInput) : Script :=
  (map.witnessUtxo.map TxOut.scriptPubkey).getD []

/-- The bytes after the outputs. -/
def tailBytes : WasmVersion → Nat
  | .v1 => 0
  | .v2 => 36

/-- The size of a view, in unbounded integers. -/
def viewBytes (version : WasmVersion) (input : SigningInput) : Nat :=
  20 + (input.psbt.inputs.map fun map => 52 + (prevoutScript map).length).sum +
    (input.psbt.unsignedTx.output.map fun output =>
      12 + output.scriptPubkey.length).sum +
    tailBytes version

def tailAmounts : WasmVersion → List Nat
  | .v1 => []
  | .v2 => [36]

/-- What the size pass adds to twenty, in its order. -/
def amounts (version : WasmVersion) (input : SigningInput) : List Nat :=
  (input.psbt.inputs.flatMap fun map => [52, (prevoutScript map).length]) ++
    (input.psbt.unsignedTx.output.flatMap fun output =>
      [12, output.scriptPubkey.length]) ++
    tailAmounts version

theorem sum_flatMap_pair {α : Type} (fixed : Nat) (f : α → Nat)
    (xs : List α) :
    (xs.flatMap fun x => [fixed, f x]).sum
      = (xs.map fun x => fixed + f x).sum := by
  induction xs with
  | nil => rfl
  | cons x xs ih =>
      rw [List.flatMap_cons, List.sum_append, ih, List.map_cons,
        List.sum_cons]
      rfl

theorem sum_amounts (version : WasmVersion) (input : SigningInput) :
    20 + (amounts version input).sum = viewBytes version input := by
  have htail : (tailAmounts version).sum = tailBytes version := by
    cases version <;> rfl
  rw [amounts, List.sum_append, List.sum_append, sum_flatMap_pair,
    sum_flatMap_pair, viewBytes, htail]
  omega

/-! ## The size pass is a fold -/

theorem foldlM_addSize {list : List Nat} {size : Nat}
    (h : size ≤ maxSignedViewBytes) :
    list.foldlM addSize size
      = if size + list.sum ≤ maxSignedViewBytes then .ok (size + list.sum)
        else failure tooLarge := by
  induction list generalizing size with
  | nil =>
      rw [List.foldlM_nil, List.sum_nil, Nat.add_zero, if_pos h]
      rfl
  | cons amount list ih =>
      rw [List.foldlM_cons, addSize_eq, List.sum_cons, ← Nat.add_assoc]
      by_cases hle : size + amount ≤ maxSignedViewBytes
      · rw [if_pos hle]
        exact ih hle
      · rw [if_neg hle, if_neg (by omega)]
        rfl

theorem sizeInputs_eq {maps : List PsbtInput} {size : Nat}
    (h : ∀ map ∈ maps, map.witnessUtxo.isSome) :
    sizeInputs maps size
      = (maps.flatMap fun map => [52, (prevoutScript map).length]).foldlM
        addSize size := by
  induction maps generalizing size with
  | nil => rfl
  | cons map maps ih =>
      obtain ⟨output, houtput⟩ :=
        Option.isSome_iff_exists.mp (h map List.mem_cons_self)
      have hscript : prevoutScript map = output.scriptPubkey := by
        rw [prevoutScript, houtput]
        rfl
      have hprevout : prevout map = .ok output := by
        rw [prevout, houtput]
      rw [sizeInputs, hprevout, List.flatMap_cons, List.foldlM_append, hscript]
      have hrest : ∀ size, sizeInputs maps size
          = (maps.flatMap fun map => [52, (prevoutScript map).length]).foldlM
            addSize size :=
        fun _ => ih fun m hm => h m (List.mem_cons_of_mem map hm)
      simp only [List.foldlM_cons, List.foldlM_nil, bind_assoc, bind_pure,
        hrest]
      rfl

theorem sizeOutputs_eq (outputs : List TxOut) (size : Nat) :
    sizeOutputs outputs size
      = (outputs.flatMap fun output =>
        [12, output.scriptPubkey.length]).foldlM addSize size := by
  induction outputs generalizing size with
  | nil => rfl
  | cons output outputs ih =>
      rw [sizeOutputs, List.flatMap_cons, List.foldlM_append]
      simp only [List.foldlM_cons, List.foldlM_nil, bind_assoc, bind_pure, ih]

theorem viewSize_eq {version : WasmVersion} {input : SigningInput}
    (h : ∀ map ∈ input.psbt.inputs, map.witnessUtxo.isSome) :
    viewSize version input
      = (amounts version input).foldlM addSize 20 := by
  rw [viewSize, amounts, List.foldlM_append, List.foldlM_append,
    sizeInputs_eq h]
  simp only [sizeOutputs_eq, bind_assoc]
  cases version with
  | v1 => rfl
  | v2 =>
      simp only [tailAmounts, List.foldlM_cons, List.foldlM_nil, bind_pure]

theorem viewSize_exact {version : WasmVersion} {input : SigningInput}
    (h : ∀ map ∈ input.psbt.inputs, map.witnessUtxo.isSome) :
    viewSize version input
      = if viewBytes version input ≤ maxSignedViewBytes then
          .ok (viewBytes version input)
        else failure tooLarge := by
  rw [viewSize_eq h, foldlM_addSize (by decide), sum_amounts]

/-! ## The second pass -/

/-- The internal key of the selected input, when it has one. -/
def internalKey (input : SigningInput) : Option Hash :=
  input.psbt.inputs[input.inputIndex]?.bind PsbtInput.tapInternalKey

theorem exists_prevouts {maps : List PsbtInput}
    (h : ∀ map ∈ maps, map.witnessUtxo.isSome) :
    ∃ prevouts : List TxOut,
      maps.map PsbtInput.witnessUtxo = prevouts.map some := by
  induction maps with
  | nil => exact ⟨[], rfl⟩
  | cons map maps ih =>
      obtain ⟨output, houtput⟩ :=
        Option.isSome_iff_exists.mp (h map List.mem_cons_self)
      obtain ⟨prevouts, hutxo⟩ :=
        ih fun m hm => h m (List.mem_cons_of_mem map hm)
      refine ⟨output :: prevouts, ?_⟩
      rw [List.map_cons, List.map_cons, houtput, hutxo]

/-- Every length and count was converted to `u32` without loss. -/
structure Lossless (input : SigningInput) : Prop where
  prevouts : ∀ map ∈ input.psbt.inputs,
    (asU32 (prevoutScript map).length).toNat = (prevoutScript map).length
  outputs : ∀ output ∈ input.psbt.unsignedTx.output,
    (asU32 output.scriptPubkey.length).toNat = output.scriptPubkey.length
  inputCount : ∃ count,
    countU32 input.psbt.unsignedTx.input.length = .ok count ∧
      count.toNat = input.psbt.unsignedTx.input.length
  outputCount : ∃ count,
    countU32 input.psbt.unsignedTx.output.length = .ok count ∧
      count.toNat = input.psbt.unsignedTx.output.length
  inputIndex : ∃ index, countU32 input.inputIndex = .ok index ∧
    index.toNat = input.inputIndex

theorem lossless_of_le {version : WasmVersion} {input : SigningInput}
    (hindex : input.inputIndex < input.psbt.unsignedTx.input.length)
    (hle : viewBytes version input ≤ maxSignedViewBytes) :
    Lossless input := by
  have hmax : maxSignedViewBytes = 1048576 := rfl
  have hinputs := mul_length_le_sum 52
    (fun map => (prevoutScript map).length) input.psbt.inputs
  have houtputs := mul_length_le_sum 12
    (fun output : TxOut => output.scriptPubkey.length)
    input.psbt.unsignedTx.output
  rw [input.psbt.inputs_length] at hinputs
  unfold viewBytes at hle
  have hcount : ∀ n, n < 2 ^ 32 →
      ∃ count, countU32 n = .ok count ∧ count.toNat = n :=
    fun n hn => ⟨_, countU32_of_lt hn, asU32_toNat hn⟩
  exact
    { prevouts := by
        intro map hmem
        have hscript := le_sum_of_mem 52
          (fun map => (prevoutScript map).length) hmem
        exact asU32_toNat (by omega)
      outputs := by
        intro output hmem
        have hscript := le_sum_of_mem 12
          (fun output : TxOut => output.scriptPubkey.length) hmem
        exact asU32_toNat (by omega)
      inputCount := hcount _ (by omega)
      outputCount := hcount _ (by omega)
      inputIndex := hcount _ (by omega) }

theorem encodeTail_eq {version : WasmVersion} {input : SigningInput}
    (hindex : input.inputIndex < input.psbt.unsignedTx.input.length) :
    (∃ tail, encodeTail version input = .ok tail) ↔
      (version = .v2 → (internalKey input).isSome) := by
  rw [← input.psbt.inputs_length] at hindex
  have hmap := List.getElem?_eq_getElem hindex
  unfold internalKey encodeTail
  rw [hmap, Option.bind_some]
  cases version with
  | v1 => exact ⟨fun _ h => (nomatch h), fun _ => ⟨[], rfl⟩⟩
  | v2 =>
      simp only [forall_const]
      split
      · next hnone =>
          rw [hnone]
          exact ⟨fun ⟨_, h⟩ => (nomatch h), fun h => (nomatch h)⟩
      · next key hsome =>
          rw [hsome]
          exact ⟨fun _ => rfl, fun _ => ⟨_, rfl⟩⟩

theorem exists_encodeView_iff {version : WasmVersion} {input : SigningInput}
    (hpresent : ∀ map ∈ input.psbt.inputs, map.witnessUtxo.isSome)
    (hindex : input.inputIndex < input.psbt.unsignedTx.input.length) :
    (∃ view, encodeView version input = .ok view) ↔
      viewBytes version input ≤ maxSignedViewBytes ∧
        (version = .v2 → (internalKey input).isSome) := by
  constructor
  · rintro ⟨view, h⟩
    obtain ⟨size, hsize, h⟩ := bind_ok h
    obtain ⟨_, _, h⟩ := bind_ok h
    obtain ⟨_, _, h⟩ := bind_ok h
    obtain ⟨_, _, h⟩ := bind_ok h
    obtain ⟨_, _, h⟩ := bind_ok h
    obtain ⟨tail, htail, _⟩ := bind_ok h
    refine ⟨?_, (encodeTail_eq hindex).mp ⟨tail, htail⟩⟩
    rw [viewSize_exact hpresent] at hsize
    split at hsize
    · next hle => exact hle
    · cases hsize
  · rintro ⟨hle, hkey⟩
    obtain ⟨tail, htail⟩ := (encodeTail_eq hindex).mpr hkey
    obtain ⟨prevouts, hprevouts⟩ := exists_prevouts hpresent
    have hlossless := lossless_of_le hindex hle
    obtain ⟨inputCount, hinputs, -⟩ := hlossless.inputCount
    obtain ⟨outputCount, houtputs, -⟩ := hlossless.outputCount
    obtain ⟨inputIndex, hindexed, -⟩ := hlossless.inputIndex
    unfold encodeView
    simp only [viewSize_exact hpresent, if_pos hle, hinputs, houtputs,
      hindexed, encodeInputs_eq hprevouts, htail]
    exact ⟨_, rfl⟩

/-- As many bytes are written as the first pass counted. -/
theorem length_encodeView {version : WasmVersion} {input : SigningInput}
    {view : Bytes} (h : encodeView version input = .ok view) :
    view.length = viewBytes version input := by
  obtain ⟨prevouts, tail, _, _, _, henc⟩ := encodeView_ok h
  have htail : tail.length = tailBytes version := by
    rw [length_encodeTail henc.tail_eq]
    cases version <;> rfl
  have hinputs : inputBytes prevouts
      = (input.psbt.inputs.map fun map =>
        52 + (prevoutScript map).length).sum := by
    have hscripts : prevouts.map (fun o => o.scriptPubkey.length)
        = input.psbt.inputs.map fun map => (prevoutScript map).length := by
      have hutxo := congrArg
        (List.map fun o : Option TxOut =>
          ((o.map TxOut.scriptPubkey).getD []).length) henc.prevouts_eq
      rw [List.map_map, List.map_map] at hutxo
      exact hutxo.symm
    have hshift := congrArg (List.map fun n => 52 + n) hscripts
    rw [List.map_map, List.map_map] at hshift
    exact congrArg List.sum hshift
  rw [henc.length_eq, htail, hinputs]
  rfl

/-! ## The bound -/

/-- Every addition the size pass performs starts from an exact sum no larger
than the limit, so a length a `Vec` can have never wraps it. -/
def ExactAdditions (version : WasmVersion) (input : SigningInput) : Prop :=
  viewSize version input = (amounts version input).foldlM addSize 20 ∧
  ∀ done amount rest size,
    amounts version input = done ++ amount :: rest →
    done.foldlM addSize 20 = .ok size →
    size = 20 + done.sum ∧ size ≤ maxSignedViewBytes ∧
      (amount < 2 ^ 63 → size + amount < 2 ^ 64)

theorem exactAdditions {version : WasmVersion} {input : SigningInput}
    (h : ∀ map ∈ input.psbt.inputs, map.witnessUtxo.isSome) :
    ExactAdditions version input := by
  have hmax : maxSignedViewBytes = 1048576 := rfl
  refine ⟨viewSize_eq h, ?_⟩
  intro done amount rest size _ hfold
  rw [foldlM_addSize (by decide)] at hfold
  split at hfold
  · next hle =>
      injection hfold with hsize
      subst hsize
      exact ⟨rfl, hle, fun _ => by omega⟩
  · cases hfold

/-- With every prevout present and the index in range, a view is encoded
exactly when its size in unbounded integers is within the limit and, in the
second version, the selected input has an internal key. It then has exactly
that size, which is the one the first pass counted; no conversion lost
anything, and no addition wrapped on the way. -/
theorem encodeView_bound_exact (version : WasmVersion) (input : SigningInput)
    (hpresent : ∀ map ∈ input.psbt.inputs, map.witnessUtxo.isSome)
    (hindex : input.inputIndex < input.psbt.unsignedTx.input.length) :
    ((∃ view, encodeView version input = .ok view) ↔
      viewBytes version input ≤ maxSignedViewBytes ∧
        (version = .v2 → (internalKey input).isSome)) ∧
    (∀ view, encodeView version input = .ok view →
      view.length = viewBytes version input ∧
        viewSize version input = .ok view.length ∧ Lossless input) ∧
    ExactAdditions version input := by
  refine ⟨exists_encodeView_iff hpresent hindex, ?_, exactAdditions hpresent⟩
  intro view hview
  have hle := ((exists_encodeView_iff hpresent hindex).mp ⟨view, hview⟩).1
  have hlen := length_encodeView hview
  refine ⟨hlen, ?_, lossless_of_le hindex hle⟩
  rw [viewSize_exact hpresent, if_pos hle, hlen]

theorem encodeView_bound_exact_oneInputSpend :
    ∃ view, encodeView .v2 oneInputSpend = .ok view ∧ view.length = 122 := by
  have hexact := encodeView_bound_exact .v2 oneInputSpend (by decide)
    (by decide)
  obtain ⟨view, hview⟩ := hexact.1.mpr ⟨by decide, by decide⟩
  exact ⟨view, hview, (hexact.2.1 view hview).1⟩

end SapioTee
