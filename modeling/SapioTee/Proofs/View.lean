import Mathlib.Algebra.Order.BigOperators.Group.List
import Mathlib.Algebra.Order.Group.Nat
import SapioTee.Model.Evaluator

/-!
# The signed view is unambiguous

`decodeView` reads a view back field by field, in the order `encodeView`
writes them. That it inverts the encoder is a chain of `Reads` facts, one for
each field, with the two counted lists by induction inside the library.

Two things have to be known of a view before the chain applies. Every script
is short enough for its unchecked `as u32` length, and the three counts that
are checked fit. Both come from the size pass, which refuses anything past a
mebibyte before a byte is written; `encodeView_ok` collects what it leaves,
including that the bytes written are as many as the pass counted.
-/

namespace SapioTee

open Lib

/-! ## The decoder -/

structure ViewInput where
  previousOutput : OutPoint
  sequence : UInt32
  value : UInt64
  scriptPubkey : Script
  deriving DecidableEq

/-- What a guest can learn from a view. `tail` is the internal key and the
annex of a second-version view. -/
structure View where
  version : Int32
  lockTime : UInt32
  inputIndex : UInt32
  inputs : List ViewInput
  outputs : List TxOut
  tail : Option (Hash × Bytes)
  deriving DecidableEq

def readU32 : Parser UInt32 := do
  let n ← Parser.word 4
  pure (UInt32.ofNat n)

def readU64 : Parser UInt64 := do
  let n ← Parser.word 8
  pure (UInt64.ofNat n)

def readI32 : Parser Int32 := do
  let x ← readU32
  pure x.toInt32

/-- A `u32` length and that many bytes. -/
def readScript : Parser Bytes := do
  let n ← readU32
  Parser.take n.toNat

def readInput : Parser ViewInput := do
  let txid ← Parser.bytes 32
  let vout ← readU32
  let sequence ← readU32
  let value ← readU64
  let script ← readScript
  pure ⟨⟨txid, vout⟩, sequence, value, script⟩

def readOutput : Parser TxOut := do
  let value ← readU64
  let script ← readScript
  pure ⟨value, script⟩

def readTail : WasmVersion → Parser (Option (Hash × Bytes))
  | .v1 => pure none
  | .v2 => do
      let key ← Parser.bytes 32
      let annex ← readScript
      pure (some (key, annex))

def decodeView (version : WasmVersion) : Parser View := do
  let txVersion ← readI32
  let lockTime ← readU32
  let inputIndex ← readU32
  let inputCount ← readU32
  let inputs ← readInput.times inputCount.toNat
  let outputCount ← readU32
  let outputs ← readOutput.times outputCount.toNat
  let tail ← readTail version
  pure ⟨txVersion, lockTime, inputIndex, inputs, outputs, tail⟩

/-- Nothing in the first version; the selected input's internal key and an
empty annex in the second. -/
def ShowsTail (input : SigningInput) (shown : Option (Hash × Bytes)) :
    WasmVersion → Prop
  | .v1 => shown = none
  | .v2 => ∃ key,
      input.psbt.inputs[input.inputIndex]?.bind PsbtInput.tapInternalKey
        = some key ∧ shown = some (key, [])

/-- The view shows the signing input: every field is the one of the
transaction, of the prevouts and of the selected input. -/
structure Shows (version : WasmVersion) (input : SigningInput) (view : View) :
    Prop where
  txVersion : view.version = input.psbt.unsignedTx.version
  lockTime : view.lockTime = input.psbt.unsignedTx.lockTime
  inputIndex : view.inputIndex.toNat = input.inputIndex
  outpoints : view.inputs.map ViewInput.previousOutput
    = input.psbt.unsignedTx.input.map TxIn.previousOutput
  sequences : view.inputs.map ViewInput.sequence
    = input.psbt.unsignedTx.input.map TxIn.sequence
  prevouts : (view.inputs.map fun i => some ⟨i.value, i.scriptPubkey⟩)
    = input.psbt.inputs.map PsbtInput.witnessUtxo
  outputs : view.outputs = input.psbt.unsignedTx.output
  tail : ShowsTail input view.tail version

/-! ## Reading each field back -/

theorem reads_u32 (x : UInt32) : Reads readU32 (u32Le x) x := by
  have h := (reads_word (w := 4) x.toNat_lt).bind_pure UInt32.ofNat
  rwa [UInt32.ofNat_toNat] at h

theorem reads_u64 (x : UInt64) : Reads readU64 (u64Le x) x := by
  have h := (reads_word (w := 8) x.toNat_lt).bind_pure UInt64.ofNat
  rwa [UInt64.ofNat_toNat] at h

theorem reads_i32 (x : Int32) : Reads readI32 (i32Le x) x := by
  have h := (reads_u32 x.toUInt32).bind_pure UInt32.toInt32
  rwa [Int32.toInt32_toUInt32] at h

theorem reads_script {script : Script} (h : script.length < 2 ^ 32) :
    Reads readScript (u32Le (asU32 script.length) ++ script) script := by
  refine (reads_u32 _).bind ?_
  rw [asU32_toNat h]
  exact reads_take script

theorem reads_input {txin : TxIn} {output : TxOut}
    (h : output.scriptPubkey.length < 2 ^ 32) :
    Reads readInput (encodeInput txin output)
      ⟨txin.previousOutput, txin.sequence, output.value,
        output.scriptPubkey⟩ := by
  unfold readInput encodeInput OutPoint.encode
  simp only [List.append_assoc]
  refine (reads_bytes txin.previousOutput.txid).bind ?_
  refine (reads_u32 txin.previousOutput.vout).bind ?_
  refine (reads_u32 txin.sequence).bind ?_
  refine (reads_u64 output.value).bind ?_
  exact (reads_script h).bind_pure _

theorem reads_output {output : TxOut}
    (h : output.scriptPubkey.length < 2 ^ 32) :
    Reads readOutput (encodeOutput output) output := by
  unfold readOutput encodeOutput
  rw [List.append_assoc]
  refine (reads_u64 output.value).bind ?_
  exact (reads_script h).bind_pure _

/-! ## What the size pass leaves -/

def tooLarge : String := "signed transaction view exceeds 1048576 bytes"

theorem addSize_eq (size amount : Nat) :
    addSize size amount
      = if size + amount ≤ maxSignedViewBytes then .ok (size + amount)
        else failure tooLarge := by
  have hmax : maxSignedViewBytes = 1048576 := rfl
  unfold addSize checkedAdd
  by_cases hle : size + amount ≤ maxSignedViewBytes
  · rw [if_pos hle, if_pos (by omega), Option.filter_some,
      if_pos (decide_eq_true hle)]
  · rw [if_neg hle]
    split
    · next total htotal =>
        obtain ⟨hsome, hsmall⟩ := Option.filter_eq_some_iff.mp htotal
        split at hsome
        · injection hsome with hsome
          subst hsome
          exact absurd (of_decide_eq_true hsmall) hle
        · cases hsome
    · rfl

theorem addSize_ok {size amount total : Nat}
    (h : addSize size amount = .ok total) :
    total = size + amount ∧ total ≤ maxSignedViewBytes := by
  rw [addSize_eq] at h
  split at h
  · next hle =>
      injection h with h
      rw [← h]
      exact ⟨rfl, hle⟩
  · cases h

theorem prevout_ok {map : PsbtInput} {output : TxOut}
    (h : prevout map = .ok output) : map.witnessUtxo = some output := by
  unfold prevout at h
  split at h
  · next hsome =>
      injection h with h
      rw [hsome, h]
  · cases h

/-- Each list is bounded by what is counted for it. -/
theorem mul_length_le_sum {α : Type} (fixed : Nat) (f : α → Nat)
    (xs : List α) :
    fixed * xs.length ≤ (xs.map fun x => fixed + f x).sum := by
  induction xs with
  | nil => exact Nat.le_refl _
  | cons x xs ih =>
      rw [List.length_cons, List.map_cons, List.sum_cons, Nat.mul_succ]
      omega

theorem le_sum_of_mem {α : Type} (fixed : Nat) (f : α → Nat) {xs : List α}
    {x : α} (h : x ∈ xs) : f x ≤ (xs.map fun x => fixed + f x).sum :=
  Nat.le_trans (Nat.le_add_left _ _)
    (List.le_sum_of_mem (List.mem_map_of_mem (f := fun x => fixed + f x) h))

/-- The bytes the size pass counts for the prevouts and for the outputs. -/
def inputBytes (prevouts : List TxOut) : Nat :=
  (prevouts.map fun o => 52 + o.scriptPubkey.length).sum

def outputBytes (outputs : List TxOut) : Nat :=
  (outputs.map fun o => 12 + o.scriptPubkey.length).sum

theorem sizeInputs_ok {maps : List PsbtInput} {size total : Nat}
    (h : sizeInputs maps size = .ok total) :
    ∃ prevouts : List TxOut,
      maps.map PsbtInput.witnessUtxo = prevouts.map some ∧
      total = size + inputBytes prevouts ∧
      (size ≤ maxSignedViewBytes → total ≤ maxSignedViewBytes) := by
  induction maps generalizing size with
  | nil =>
      injection h with h
      exact ⟨[], rfl, h.symm, fun hle => h ▸ hle⟩
  | cons map maps ih =>
      obtain ⟨output, hprevout, h⟩ := bind_ok h
      obtain ⟨fixed, hfixed, h⟩ := bind_ok h
      obtain ⟨next, hnext, h⟩ := bind_ok h
      obtain ⟨prevouts, hmaps, htotal, hle⟩ := ih h
      obtain ⟨rfl, -⟩ := addSize_ok hfixed
      obtain ⟨rfl, hbound⟩ := addSize_ok hnext
      refine ⟨output :: prevouts, ?_, ?_, fun _ => hle hbound⟩
      · rw [List.map_cons, List.map_cons, prevout_ok hprevout, hmaps]
      · rw [htotal, inputBytes, inputBytes, List.map_cons, List.sum_cons]
        omega

theorem sizeOutputs_ok {outputs : List TxOut} {size total : Nat}
    (h : sizeOutputs outputs size = .ok total) :
    total = size + outputBytes outputs ∧
      (size ≤ maxSignedViewBytes → total ≤ maxSignedViewBytes) := by
  induction outputs generalizing size with
  | nil =>
      injection h with h
      exact ⟨h.symm, fun hle => h ▸ hle⟩
  | cons output outputs ih =>
      obtain ⟨fixed, hfixed, h⟩ := bind_ok h
      obtain ⟨next, hnext, h⟩ := bind_ok h
      obtain ⟨htotal, hle⟩ := ih h
      obtain ⟨rfl, -⟩ := addSize_ok hfixed
      obtain ⟨rfl, hbound⟩ := addSize_ok hnext
      refine ⟨?_, fun _ => hle hbound⟩
      rw [htotal, outputBytes, outputBytes, List.map_cons, List.sum_cons]
      omega

theorem script_le_inputBytes {prevouts : List TxOut} {output : TxOut}
    (h : output ∈ prevouts) :
    output.scriptPubkey.length ≤ inputBytes prevouts :=
  le_sum_of_mem 52 (fun o : TxOut => o.scriptPubkey.length) h

theorem script_le_outputBytes {outputs : List TxOut} {output : TxOut}
    (h : output ∈ outputs) :
    output.scriptPubkey.length ≤ outputBytes outputs :=
  le_sum_of_mem 12 (fun o : TxOut => o.scriptPubkey.length) h

theorem encodeInputs_eq {txins : List TxIn} {maps : List PsbtInput}
    {prevouts : List TxOut}
    (h : maps.map PsbtInput.witnessUtxo = prevouts.map some) :
    encodeInputs txins maps
      = .ok ((txins.zip prevouts).flatMap fun x => encodeInput x.1 x.2) := by
  induction txins generalizing maps prevouts with
  | nil => rfl
  | cons txin txins ih =>
      match maps, prevouts, h with
      | [], [], _ => rfl
      | map :: maps, output :: prevouts, h =>
          injection h with hhead htail
          have hprevout : prevout map = .ok output := by
            rw [prevout, hhead]
          rw [encodeInputs, hprevout, ih htail]
          rfl

/-- What a view that was encoded is made of. -/
structure Encoded (version : WasmVersion) (input : SigningInput)
    (view : Bytes) (prevouts : List TxOut) (tail : Bytes)
    (inputIndex inputCount outputCount : UInt32) : Prop where
  prevouts_eq : input.psbt.inputs.map PsbtInput.witnessUtxo = prevouts.map some
  index_eq : inputIndex.toNat = input.inputIndex
  inputCount_eq : inputCount.toNat = input.psbt.unsignedTx.input.length
  outputCount_eq : outputCount.toNat = input.psbt.unsignedTx.output.length
  tail_eq : encodeTail version input = .ok tail
  bounded : 20 + inputBytes prevouts +
    outputBytes input.psbt.unsignedTx.output + tail.length
      ≤ maxSignedViewBytes
  view_eq : view = i32Le input.psbt.unsignedTx.version ++
    u32Le input.psbt.unsignedTx.lockTime ++ u32Le inputIndex ++
    u32Le inputCount ++
    ((input.psbt.unsignedTx.input.zip prevouts).flatMap
      fun x => encodeInput x.1 x.2) ++
    u32Le outputCount ++ input.psbt.unsignedTx.output.flatMap encodeOutput ++
    tail

theorem length_encodeTail {version : WasmVersion} {input : SigningInput}
    {tail : Bytes} (h : encodeTail version input = .ok tail) :
    tail.length = match version with
      | .v1 => 0
      | .v2 => 36 := by
  unfold encodeTail at h
  cases version with
  | v1 =>
      injection h with h
      subst h
      rfl
  | v2 =>
      simp only [] at h
      split at h
      · cases h
      · split at h
        · cases h
        · injection h with h
          subst h
          rw [List.length_append, Vector.length_toList, length_u32Le]

theorem encodeView_ok {version : WasmVersion} {input : SigningInput}
    {view : Bytes} (h : encodeView version input = .ok view) :
    ∃ prevouts tail inputIndex inputCount outputCount,
      Encoded version input view prevouts tail inputIndex inputCount
        outputCount := by
  obtain ⟨size, hsize, h⟩ := bind_ok h
  obtain ⟨inputCount, hinputs, h⟩ := bind_ok h
  obtain ⟨outputCount, houtputs, h⟩ := bind_ok h
  obtain ⟨inputIndex, hindex, h⟩ := bind_ok h
  obtain ⟨inputs, hencoded, h⟩ := bind_ok h
  obtain ⟨tail, htail, h⟩ := bind_ok h
  injection h with h
  obtain ⟨size₁, hsize₁, hsize⟩ := bind_ok hsize
  obtain ⟨size₂, hsize₂, hsize⟩ := bind_ok hsize
  obtain ⟨prevouts, hprevouts, rfl, hle₁⟩ := sizeInputs_ok hsize₁
  obtain ⟨rfl, hle₂⟩ := sizeOutputs_ok hsize₂
  rw [encodeInputs_eq hprevouts] at hencoded
  injection hencoded with hencoded
  subst hencoded
  refine ⟨prevouts, tail, inputIndex, inputCount, outputCount, ?_⟩
  exact
    { prevouts_eq := hprevouts
      index_eq := countU32_ok hindex
      inputCount_eq := countU32_ok hinputs
      outputCount_eq := countU32_ok houtputs
      tail_eq := htail
      bounded := by
        have hbase := hle₂ (hle₁ (by decide))
        rw [length_encodeTail htail]
        cases version with
        | v1 => exact hbase
        | v2 =>
            obtain ⟨rfl, hadd⟩ := addSize_ok hsize
            exact hadd
      view_eq := h.symm }

/-! ## The round trip -/

/-- One input of the transaction beside the prevout it spends. -/
def shownInput (x : TxIn × TxOut) : ViewInput :=
  ⟨x.1.previousOutput, x.1.sequence, x.2.value, x.2.scriptPubkey⟩

theorem reads_tail {version : WasmVersion} {input : SigningInput}
    {tail : Bytes} (h : encodeTail version input = .ok tail) :
    ∃ shown, Reads (readTail version) tail shown ∧
      ShowsTail input shown version := by
  unfold encodeTail at h
  cases version with
  | v1 =>
      injection h with h
      subst h
      exact ⟨none, Reads.pure none, rfl⟩
  | v2 =>
      simp only [] at h
      split at h
      · cases h
      · next map hmap =>
          split at h
          · cases h
          · next key hkey =>
              injection h with h
              subst h
              have hannex : Reads readScript (u32Le (asU32 0)) [] := by
                have hempty := @reads_script [] (by decide)
                rwa [List.length_nil, List.append_nil] at hempty
              have hshown : ShowsTail input (some (key, [])) .v2 :=
                ⟨key, by rw [hmap, Option.bind_some, hkey], rfl⟩
              exact ⟨some (key, []),
                (reads_bytes key).bind (hannex.bind_pure _), hshown⟩

theorem length_prevouts {input : SigningInput} {prevouts : List TxOut}
    (h : input.psbt.inputs.map PsbtInput.witnessUtxo = prevouts.map some) :
    prevouts.length = input.psbt.unsignedTx.input.length := by
  have hlen := congrArg List.length h
  rw [List.length_map, List.length_map, input.psbt.inputs_length] at hlen
  exact hlen.symm

theorem length_encodeInput (txin : TxIn) (output : TxOut) :
    (encodeInput txin output).length = 52 + output.scriptPubkey.length := by
  simp only [encodeInput, List.length_append, OutPoint.length_encode,
    length_u32Le, length_u64Le]

theorem length_encodeOutput (output : TxOut) :
    (encodeOutput output).length = 12 + output.scriptPubkey.length := by
  simp only [encodeOutput, List.length_append, length_u32Le, length_u64Le]

theorem length_encodeInputs {txins : List TxIn} {prevouts : List TxOut}
    (h : prevouts.length = txins.length) :
    ((txins.zip prevouts).flatMap fun x => encodeInput x.1 x.2).length
      = inputBytes prevouts := by
  have hmap : (txins.zip prevouts).map
      (fun x => (encodeInput x.1 x.2).length)
        = prevouts.map fun o => 52 + o.scriptPubkey.length := by
    simp only [length_encodeInput]
    show List.map ((fun o : TxOut => 52 + o.scriptPubkey.length) ∘ Prod.snd) _
      = _
    rw [← List.map_map, List.map_snd_zip (by omega)]
  rw [List.length_flatMap, hmap, inputBytes]

theorem length_encodeOutputs (outputs : List TxOut) :
    (outputs.flatMap encodeOutput).length = outputBytes outputs := by
  rw [List.length_flatMap, outputBytes]
  simp only [length_encodeOutput]

/-- The two passes agree: as many bytes are written as were counted. -/
theorem Encoded.length_eq {version : WasmVersion} {input : SigningInput}
    {view tail : Bytes} {prevouts : List TxOut}
    {inputIndex inputCount outputCount : UInt32}
    (h : Encoded version input view prevouts tail inputIndex inputCount
      outputCount) :
    view.length = 20 + inputBytes prevouts +
      outputBytes input.psbt.unsignedTx.output + tail.length := by
  rw [h.view_eq]
  simp only [List.length_append, length_i32Le, length_u32Le,
    length_encodeInputs (length_prevouts h.prevouts_eq), length_encodeOutputs]
  omega

/-- A view that was encoded reads back to a view that shows its input. -/
theorem decodeView_encodeView {version : WasmVersion} {input : SigningInput}
    {bytes : Bytes} (h : encodeView version input = .ok bytes) :
    ∃ view, (decodeView version).run bytes = some (view, []) ∧
      Shows version input view := by
  obtain ⟨prevouts, tail, inputIndex, inputCount, outputCount, henc⟩ :=
    encodeView_ok h
  obtain ⟨shown, hreadTail, htail⟩ := reads_tail henc.tail_eq
  have hlimit : maxSignedViewBytes < 2 ^ 32 := by decide
  have hbounded := henc.bounded
  have hlen := length_prevouts henc.prevouts_eq
  have hinputs : Reads (readInput.times inputCount.toNat)
      ((input.psbt.unsignedTx.input.zip prevouts).flatMap
        fun x => encodeInput x.1 x.2)
      ((input.psbt.unsignedTx.input.zip prevouts).map shownInput) := by
    have hcount : inputCount.toNat
        = (input.psbt.unsignedTx.input.zip prevouts).length := by
      rw [henc.inputCount_eq, List.length_zip, hlen, Nat.min_self]
    rw [hcount]
    refine reads_times ?_
    intro x hx
    have hscript := script_le_inputBytes (List.of_mem_zip hx).2
    exact reads_input (by omega)
  have houtputs : Reads (readOutput.times outputCount.toNat)
      (input.psbt.unsignedTx.output.flatMap encodeOutput)
      input.psbt.unsignedTx.output := by
    have hread : Reads
        (readOutput.times input.psbt.unsignedTx.output.length)
        (input.psbt.unsignedTx.output.flatMap encodeOutput)
        (input.psbt.unsignedTx.output.map id) := by
      refine reads_times ?_
      intro x hx
      have hscript := script_le_outputBytes hx
      exact reads_output (by omega)
    rw [henc.outputCount_eq]
    rwa [List.map_id] at hread
  refine ⟨⟨input.psbt.unsignedTx.version, input.psbt.unsignedTx.lockTime,
    inputIndex, (input.psbt.unsignedTx.input.zip prevouts).map shownInput,
    input.psbt.unsignedTx.output, shown⟩, ?_, ?_⟩
  · refine Reads.run_eq ?_
    rw [henc.view_eq]
    unfold decodeView
    simp only [List.append_assoc]
    refine (reads_i32 _).bind ?_
    refine (reads_u32 _).bind ?_
    refine (reads_u32 _).bind ?_
    refine (reads_u32 _).bind ?_
    refine hinputs.bind ?_
    refine (reads_u32 _).bind ?_
    refine houtputs.bind ?_
    exact hreadTail.bind_pure _
  · exact
      { txVersion := rfl
        lockTime := rfl
        inputIndex := henc.index_eq
        outpoints := by
          rw [List.map_map]
          show List.map (TxIn.previousOutput ∘ Prod.fst) _ = _
          rw [← List.map_map, List.map_fst_zip (by omega)]
        sequences := by
          rw [List.map_map]
          show List.map (TxIn.sequence ∘ Prod.fst) _ = _
          rw [← List.map_map, List.map_fst_zip (by omega)]
        prevouts := by
          rw [henc.prevouts_eq, List.map_map]
          show List.map (some ∘ Prod.snd) _ = _
          rw [← List.map_map, List.map_snd_zip (by omega)]
        outputs := rfl
        tail := htail }

/-! ## What follows from it -/

/-- Two signing inputs agree on everything a view shows. -/
structure SameView (version : WasmVersion) (a b : SigningInput) : Prop where
  txVersion : a.psbt.unsignedTx.version = b.psbt.unsignedTx.version
  lockTime : a.psbt.unsignedTx.lockTime = b.psbt.unsignedTx.lockTime
  inputIndex : a.inputIndex = b.inputIndex
  outpoints : a.psbt.unsignedTx.input.map TxIn.previousOutput
    = b.psbt.unsignedTx.input.map TxIn.previousOutput
  sequences : a.psbt.unsignedTx.input.map TxIn.sequence
    = b.psbt.unsignedTx.input.map TxIn.sequence
  prevouts : a.psbt.inputs.map PsbtInput.witnessUtxo
    = b.psbt.inputs.map PsbtInput.witnessUtxo
  outputs : a.psbt.unsignedTx.output = b.psbt.unsignedTx.output
  internalKey : version = .v2 →
    a.psbt.inputs[a.inputIndex]?.bind PsbtInput.tapInternalKey
      = b.psbt.inputs[b.inputIndex]?.bind PsbtInput.tapInternalKey

theorem Shows.same {version : WasmVersion} {a b : SigningInput} {view : View}
    (ha : Shows version a view) (hb : Shows version b view) :
    SameView version a b :=
  { txVersion := ha.txVersion.symm.trans hb.txVersion
    lockTime := ha.lockTime.symm.trans hb.lockTime
    inputIndex := ha.inputIndex.symm.trans hb.inputIndex
    outpoints := ha.outpoints.symm.trans hb.outpoints
    sequences := ha.sequences.symm.trans hb.sequences
    prevouts := ha.prevouts.symm.trans hb.prevouts
    outputs := ha.outputs.symm.trans hb.outputs
    internalKey := by
      rintro rfl
      obtain ⟨key, hkey, hshown⟩ := ha.tail
      obtain ⟨key', hkey', hshown'⟩ := hb.tail
      rw [hshown] at hshown'
      injection hshown' with hpair
      injection hpair with hsame _
      rw [hkey, hkey', hsame] }

theorem sameView_of_encodeView {version : WasmVersion} {a b : SigningInput}
    {bytes : Bytes} (ha : encodeView version a = .ok bytes)
    (hb : encodeView version b = .ok bytes) : SameView version a b := by
  obtain ⟨view, hread, hshows⟩ := decodeView_encodeView ha
  obtain ⟨view', hread', hshows'⟩ := decodeView_encodeView hb
  rw [hread] at hread'
  injection hread' with hpair
  injection hpair with hview _
  subst hview
  exact hshows.same hshows'

/-- The second version appends the key and an empty annex to the first. -/
theorem encodeView_v2_eq {input : SigningInput} {v1 v2 : Bytes}
    (h1 : encodeView .v1 input = .ok v1) (h2 : encodeView .v2 input = .ok v2) :
    ∃ key, input.psbt.inputs[input.inputIndex]?.bind PsbtInput.tapInternalKey
        = some key ∧ v2 = v1 ++ key.toList ++ [0, 0, 0, 0] := by
  obtain ⟨prevouts, tail, index, inputs, outputs, henc⟩ := encodeView_ok h1
  obtain ⟨prevouts', tail', index', inputs', outputs', henc'⟩ :=
    encodeView_ok h2
  have hprevouts : prevouts = prevouts' :=
    List.map_injective_iff.mpr (fun _ _ => Option.some.inj)
      (henc.prevouts_eq.symm.trans henc'.prevouts_eq)
  have hindex : index = index' :=
    UInt32.toNat_inj.mp (henc.index_eq.trans henc'.index_eq.symm)
  have hinputs : inputs = inputs' :=
    UInt32.toNat_inj.mp (henc.inputCount_eq.trans henc'.inputCount_eq.symm)
  have houtputs : outputs = outputs' :=
    UInt32.toNat_inj.mp (henc.outputCount_eq.trans henc'.outputCount_eq.symm)
  subst hprevouts hindex hinputs houtputs
  have htail := henc.tail_eq
  injection htail with htail
  have htail' := henc'.tail_eq
  simp only [encodeTail] at htail'
  split at htail'
  · cases htail'
  · next map hmap =>
      split at htail'
      · cases htail'
      · next key hkey =>
          injection htail' with htail'
          refine ⟨key, ?_, ?_⟩
          · rw [hmap, Option.bind_some, hkey]
          · have hzero : u32Le 0 = [0, 0, 0, 0] := rfl
            rw [henc.view_eq, henc'.view_eq, ← htail, ← htail',
              List.append_nil, hzero, ← List.append_assoc]

/-- A view decodes, to its last byte, to a view that shows the signing input
it was made from; so equal views come from inputs that agree on everything
shown; and the two versions of a view differ by the tail alone. -/
theorem view_unambiguous (version : WasmVersion) :
    (∀ input bytes, encodeView version input = .ok bytes →
      ∃ view, (decodeView version).run bytes = some (view, []) ∧
        Shows version input view) ∧
    (∀ a b bytes, encodeView version a = .ok bytes →
      encodeView version b = .ok bytes → SameView version a b) ∧
    (∀ input v1 v2, encodeView .v1 input = .ok v1 →
      encodeView .v2 input = .ok v2 →
      ∃ key, input.psbt.inputs[input.inputIndex]?.bind PsbtInput.tapInternalKey
          = some key ∧ v2 = v1 ++ key.toList ++ [0, 0, 0, 0]) :=
  ⟨fun _ _ h => decodeView_encodeView h,
    fun _ _ _ ha hb => sameView_of_encodeView ha hb,
    fun _ _ _ h1 h2 => encodeView_v2_eq h1 h2⟩

/-- One input, one output, a one-byte script on each side. -/
def oneInputSpend : SigningInput where
  psbt :=
    { unsignedTx := ⟨2, 0, [⟨⟨Vector.replicate 32 7, 1⟩, 0⟩], [⟨900, [81]⟩]⟩
      inputs := [⟨some ⟨1000, [82]⟩, some (Vector.replicate 32 9), none, none,
        []⟩]
      inputs_length := rfl }
  inputIndex := 0
  context := []

theorem view_unambiguous_oneInputSpend :
    ∃ v1 v2 view, encodeView .v1 oneInputSpend = .ok v1 ∧
      encodeView .v2 oneInputSpend = .ok v2 ∧
      (decodeView .v2).run v2 = some (view, []) ∧
      Shows .v2 oneInputSpend view ∧ SameView .v2 oneInputSpend oneInputSpend ∧
      v2 = v1 ++ (Vector.replicate 32 9).toList ++ [0, 0, 0, 0] := by
  obtain ⟨v1, h1⟩ : ∃ v1, encodeView .v1 oneInputSpend = .ok v1 := ⟨_, rfl⟩
  obtain ⟨v2, h2⟩ : ∃ v2, encodeView .v2 oneInputSpend = .ok v2 := ⟨_, rfl⟩
  obtain ⟨hdecode, hsame, hversions⟩ := view_unambiguous .v2
  obtain ⟨view, hread, hshows⟩ := hdecode oneInputSpend v2 h2
  obtain ⟨key, hkey, heq⟩ := hversions oneInputSpend v1 v2 h1 h2
  injection hkey with hkey
  subst hkey
  exact ⟨v1, v2, view, h1, h2, hread, hshows, hsame _ _ v2 h2 h2, heq⟩

end SapioTee
