import SapioTee.Model.TemplateHash
import SapioTee.Proofs.Guest
import SapioTee.Proofs.View

/-!
# The predicate computes the client's template hash

Three pieces of code meet here: the host's encoder, the guest that parses
the view and serializes its outputs again, and the client that hashes the
transaction. The two loops of the guest are inductions over the inputs and
the outputs the host wrote.

The buffer for the outputs is as long as the view. A script past 65,535
bytes serializes to one byte more than the view spends on it, so the buffer
is not an evident bound: it is one because such a script is itself longer
than 65,536 bytes, so there is at most one extra byte for every 65,536 of the
view, and the header and the first input leave room for far more than that
(`serialized_fits`).
-/

namespace SapioTee

open Lib

namespace Client

/-- What a template hash commits to: everything of the transaction but the
outpoints it spends. -/
structure SameSpend (a b : Transaction) : Prop where
  version : a.version = b.version
  lockTime : a.lockTime = b.lockTime
  sequences : a.input.map TxIn.sequence = b.input.map TxIn.sequence
  outputs : a.output = b.output

theorem SameSpend.templateHash_eq {a b : Transaction} (h : SameSpend a b)
    (sha256 : Bytes → Hash) (index : UInt32) :
    templateHash sha256 a index = templateHash sha256 b index := by
  have hsequences : ∀ tx : Transaction,
      (tx.input.flatMap fun input => u32Le input.sequence)
        = (tx.input.map TxIn.sequence).flatMap u32Le := by
    intro tx
    rw [List.flatMap_map]
  unfold templateHash shaSequences shaOutputs
  rw [hsequences, hsequences, h.version, h.lockTime, h.sequences, h.outputs]

end Client

namespace Predicate

open Guest

theorem scratch_ok (arena : Arena) {n : Nat}
    (h : arena.used + n ≤ inputCapacity) (hpos : 0 < n) :
    ∃ arena', scratch arena n = some (List.replicate n 0, arena') ∧
      arena'.used = arena.used + n := by
  have hcap : inputCapacity = 1245184 := rfl
  refine ⟨{ arena with used := arena.used + n, used_le := h }, ?_, rfl⟩
  unfold scratch
  rw [tryU32, if_pos (show n < 2 ^ 32 by omega)]
  show (if (arena.sapioAllocV1 (UInt32.ofNat n)).1 = 0 ∨ n = 0 then none
    else some (List.replicate n 0, (arena.sapioAllocV1 (UInt32.ofNat n)).2))
      = _
  have hnull := Arena.address_ne_zero hpos h
  rw [Arena.sapioAllocV1_eq h, if_neg (by simp only [hnull, false_or]; omega)]

/-! ## The sequences -/

theorem fillSequences_ok {pairs : List (TxIn × TxOut)}
    (hscript : ∀ x ∈ pairs, x.2.scriptPubkey.length < 2 ^ 32) {rest : Bytes}
    {view : Reader}
    (h : view.On (pairs.flatMap (fun x => encodeInput x.1 x.2) ++ rest)) :
    ∃ view', fillSequences pairs.length view
        = some (pairs.flatMap fun x => u32Le x.1.sequence, view') ∧
      view'.On rest := by
  induction pairs generalizing view with
  | nil => exact ⟨view, rfl, h⟩
  | cons x pairs ih =>
      have hlen := hscript x List.mem_cons_self
      rw [List.flatMap_cons, encodeInput] at h
      simp only [List.append_assoc] at h
      obtain ⟨view₁, htake₁, h₁⟩ := h.take (OutPoint.length_encode _).symm
      obtain ⟨view₂, htake₂, h₂⟩ := h₁.take (length_u32Le _).symm
      obtain ⟨view₃, htake₃, h₃⟩ := h₂.take (length_u64Le _).symm
      obtain ⟨view₄, htake₄, h₄⟩ := h₃.u32
      obtain ⟨view₅, htake₅, h₅⟩ := h₄.take (asU32_toNat hlen)
      obtain ⟨view₆, hrest, h₆⟩ :=
        ih (fun y hy => hscript y (List.mem_cons_of_mem x hy)) h₅
      refine ⟨view₆, ?_, h₆⟩
      rw [List.length_cons, fillSequences]
      simp only [htake₁, htake₂, htake₃, htake₄, htake₅, hrest,
        Option.bind_eq_bind, Option.bind_some, Option.pure_def,
        List.flatMap_cons]

/-! ## The outputs -/

/-- The buffer starts with what was written so far. -/
def Filled (buffer done : Bytes) : Prop := buffer.take done.length = done

/-- A write right behind what was written so far. -/
theorem copyInto_ok {buffer done data : Bytes} {stop : Nat}
    (hdone : Filled buffer done) (hstop : stop = (done ++ data).length)
    (hroom : (done ++ data).length ≤ buffer.length) :
    ∃ buffer', copyInto buffer done.length stop data = some buffer' ∧
      Filled buffer' (done ++ data) ∧ buffer'.length = buffer.length := by
  have hle : done.length ≤ stop := by
    rw [hstop, List.length_append]
    omega
  refine ⟨done ++ data ++ buffer.drop stop, ?_, ?_, ?_⟩
  · rw [copyInto, if_pos ⟨hle, by omega⟩, hdone]
  · rw [Filled, List.take_left]
  · rw [List.length_append, List.length_drop]
    omega

theorem wrapAdd_eq {a b : Nat} (h : a + b < 2 ^ 32) : wrapAdd a b = a + b :=
  Nat.mod_eq_of_lt h

/-- The size a script length takes, below 2^32: one, three or five bytes. -/
def compactWidth (n : Nat) : Nat :=
  if n < 253 then 1 else if n ≤ 0xFFFF then 3 else 5

/-- The bytes of a script length, below 2^32. -/
def compactBytes (n : Nat) : Bytes :=
  if n < 253 then [UInt8.ofNat n]
  else if n ≤ 0xFFFF then 0xFD :: leBytes 2 n
  else 0xFE :: leBytes 4 n

theorem length_compactBytes (n : Nat) :
    (compactBytes n).length = compactWidth n := by
  unfold compactBytes compactWidth
  split
  · rfl
  · split
    · rw [List.length_cons, length_leBytes]
    · rw [List.length_cons, length_leBytes]

theorem client_pushCompactSize {n : Nat} (h : n < 2 ^ 32) :
    Client.pushCompactSize (UInt64.ofNat n) = compactBytes n := by
  have hval : (UInt64.ofNat n).toNat = n :=
    UInt64.toNat_ofNat_of_lt' (show n < 2 ^ 64 by omega)
  have hlt : (UInt64.ofNat n < 253) ↔ n < 253 := by
    rw [UInt64.lt_iff_toNat_lt, hval]
    rfl
  have hle : (UInt64.ofNat n ≤ 0xFFFF) ↔ n ≤ 0xFFFF := by
    rw [UInt64.le_iff_toNat_le, hval]
    rfl
  have hword : UInt64.ofNat n ≤ 0xFFFFFFFF := by
    rw [UInt64.le_iff_toNat_le, hval]
    show n ≤ 4294967295
    omega
  have hbyte : (UInt64.ofNat n).toUInt8 = UInt8.ofNat n := by
    rw [← UInt8.toNat_inj, UInt64.toNat_toUInt8, hval, UInt8.toNat_ofNat']
  unfold Client.pushCompactSize compactBytes
  simp only [hlt, hle, hword, hval, hbyte, if_true]

theorem pushCompactSize_ok {buffer done : Bytes} {n : Nat} (hn : n < 2 ^ 32)
    (hdone : Filled buffer done)
    (hroom : (done ++ compactBytes n).length ≤ buffer.length)
    (hlen : buffer.length < 2 ^ 32) :
    ∃ buffer', pushCompactSize buffer done.length (asU32 n)
        = some (buffer', (done ++ compactBytes n).length) ∧
      Filled buffer' (done ++ compactBytes n) ∧
      buffer'.length = buffer.length := by
  have hval := asU32_toNat hn
  have hlt : (asU32 n < 253) ↔ n < 253 := by
    rw [UInt32.lt_iff_toNat_lt, hval]
    rfl
  have hle : (asU32 n ≤ 0xFFFF) ↔ n ≤ 0xFFFF := by
    rw [UInt32.le_iff_toNat_le, hval]
    rfl
  have hbyte : (asU32 n).toUInt8 = UInt8.ofNat n := by
    rw [← UInt8.toNat_inj, UInt32.toNat_toUInt8, hval, UInt8.toNat_ofNat']
  have hstop : wrapAdd done.length (compactWidth n)
      = (done ++ compactBytes n).length := by
    rw [List.length_append, length_compactBytes] at hroom ⊢
    exact wrapAdd_eq (by omega)
  obtain ⟨buffer', hcopy, hfilled, hlength⟩ := copyInto_ok hdone hstop hroom
  refine ⟨buffer', ?_, hfilled, hlength⟩
  rw [← hstop]
  unfold compactWidth compactBytes at hcopy
  unfold pushCompactSize compactWidth
  simp only [hlt, hle, hval, hbyte]
  by_cases hsmall : n < 253
  · simp only [hsmall, if_true] at hcopy ⊢
    rw [hcopy]
    rfl
  · by_cases hmid : n ≤ 0xFFFF
    · simp only [hsmall, hmid, if_true, if_false] at hcopy ⊢
      rw [hcopy]
      rfl
    · simp only [hsmall, hmid, if_false] at hcopy ⊢
      rw [hcopy]
      rfl

theorem length_serializeOutput {output : TxOut}
    (h : output.scriptPubkey.length < 2 ^ 32) :
    (Client.serializeOutput output).length
      = 8 + compactWidth output.scriptPubkey.length +
        output.scriptPubkey.length := by
  rw [Client.serializeOutput, client_pushCompactSize h, List.length_append,
    List.length_append, length_u64Le, length_compactBytes]

/-- The three writes of one output. -/
theorem writeOutput_ok {o : TxOut} (ho : o.scriptPubkey.length < 2 ^ 32)
    {buffer done : Bytes} (hdone : Filled buffer done)
    (hroom : (done ++ Client.serializeOutput o).length ≤ buffer.length)
    (hlen : buffer.length < 2 ^ 32) :
    ∃ buffer₁ buffer₂ buffer₃ used₂,
      copyInto buffer done.length (wrapAdd done.length 8) (u64Le o.value)
        = some buffer₁ ∧
      pushCompactSize buffer₁ (wrapAdd done.length 8)
        (asU32 o.scriptPubkey.length) = some (buffer₂, used₂) ∧
      copyInto buffer₂ used₂ (wrapAdd used₂ o.scriptPubkey.length)
        o.scriptPubkey = some buffer₃ ∧
      wrapAdd used₂ o.scriptPubkey.length
        = (done ++ Client.serializeOutput o).length ∧
      Filled buffer₃ (done ++ Client.serializeOutput o) ∧
      buffer₃.length = buffer.length := by
  have hwidth := length_serializeOutput ho
  rw [List.length_append, hwidth] at hroom
  have hstop₁ : wrapAdd done.length 8 = (done ++ u64Le o.value).length := by
    rw [List.length_append, length_u64Le]
    exact wrapAdd_eq (by omega)
  obtain ⟨buffer₁, hcopy₁, hfilled₁, hlen₁⟩ := copyInto_ok hdone hstop₁
    (by rw [List.length_append, length_u64Le]; omega)
  obtain ⟨buffer₂, hcopy₂, hfilled₂, hlen₂⟩ := pushCompactSize_ok ho hfilled₁
    (by rw [List.length_append, List.length_append, length_u64Le,
      length_compactBytes]; omega)
    (by omega)
  have hparts : done ++ Client.serializeOutput o
      = done ++ u64Le o.value ++ compactBytes o.scriptPubkey.length ++
        o.scriptPubkey := by
    rw [Client.serializeOutput, client_pushCompactSize ho]
    simp only [List.append_assoc]
  have hstop₃ : wrapAdd (done ++ u64Le o.value ++
      compactBytes o.scriptPubkey.length).length o.scriptPubkey.length
        = (done ++ u64Le o.value ++ compactBytes o.scriptPubkey.length ++
          o.scriptPubkey).length := by
    have hlast := @List.length_append _ (done ++ u64Le o.value ++
      compactBytes o.scriptPubkey.length) o.scriptPubkey
    rw [hlast]
    refine wrapAdd_eq ?_
    rw [List.length_append, List.length_append, length_u64Le,
      length_compactBytes]
    omega
  obtain ⟨buffer₃, hcopy₃, hfilled₃, hlen₃⟩ := copyInto_ok hfilled₂ hstop₃
    (by rw [← hparts, List.length_append, hwidth]; omega)
  rw [hparts]
  refine ⟨buffer₁, buffer₂, buffer₃, _, hcopy₁, ?_, hcopy₃, hstop₃, hfilled₃,
    by omega⟩
  rw [hstop₁]
  exact hcopy₂

theorem writeOutputs_ok {list : List TxOut}
    (hscript : ∀ o ∈ list, o.scriptPubkey.length < 2 ^ 32) {rest : Bytes}
    {view : Reader} (h : view.On (list.flatMap encodeOutput ++ rest))
    {buffer done : Bytes} (hdone : Filled buffer done)
    (hroom : (done ++ list.flatMap Client.serializeOutput).length
      ≤ buffer.length)
    (hlen : buffer.length < 2 ^ 32) :
    ∃ buffer' view', writeOutputs list.length view buffer done.length
        = some (buffer',
          (done ++ list.flatMap Client.serializeOutput).length, view') ∧
      Filled buffer' (done ++ list.flatMap Client.serializeOutput) ∧
      view'.On rest := by
  induction list generalizing view buffer done with
  | nil =>
      rw [List.flatMap_nil, List.append_nil]
      exact ⟨buffer, view, rfl, hdone, h⟩
  | cons o list ih =>
      have ho := hscript o List.mem_cons_self
      rw [List.flatMap_cons, encodeOutput] at h
      simp only [List.append_assoc] at h
      obtain ⟨view₁, htake₁, h₁⟩ := h.take (length_u64Le _).symm
      obtain ⟨view₂, htake₂, h₂⟩ := h₁.u32
      obtain ⟨view₃, htake₃, h₃⟩ := h₂.take (asU32_toNat ho)
      rw [List.flatMap_cons, ← List.append_assoc] at hroom ⊢
      have hroom₁ : (done ++ Client.serializeOutput o).length
          ≤ buffer.length := by
        rw [List.length_append] at hroom
        omega
      obtain ⟨buffer₁, buffer₂, buffer₃, used₂, hcopy₁, hcopy₂, hcopy₃, hused,
        hfilled, hlength⟩ := writeOutput_ok ho hdone hroom₁ hlen
      obtain ⟨buffer', view', hloop, hfinal, hon⟩ :=
        ih (fun x hx => hscript x (List.mem_cons_of_mem o hx)) h₃ hfilled
          (by omega) (by omega)
      refine ⟨buffer', view', ?_, hfinal, hon⟩
      rw [List.length_cons, writeOutputs]
      simp only [htake₁, htake₂, htake₃, hcopy₁, hcopy₂, hcopy₃,
        Option.bind_eq_bind, Option.bind_some]
      rw [hused]
      exact hloop

/-! ## The buffer is long enough -/

/-- At most one byte more than the view spends, for every 65,536 it spends. -/
theorem serialized_le {list : List TxOut}
    (hscript : ∀ o ∈ list, o.scriptPubkey.length < 2 ^ 32) :
    65536 * (list.flatMap Client.serializeOutput).length
      ≤ 65537 * outputBytes list := by
  induction list with
  | nil => exact Nat.le_refl _
  | cons o list ih =>
      have hrest := ih fun x hx => hscript x (List.mem_cons_of_mem o hx)
      have hone : 65536 * (8 + compactWidth o.scriptPubkey.length +
          o.scriptPubkey.length) ≤ 65537 * (12 + o.scriptPubkey.length) := by
        unfold compactWidth
        split
        · omega
        · split
          · omega
          · omega
      rw [outputBytes] at hrest
      rw [List.flatMap_cons, List.length_append,
        length_serializeOutput (hscript o List.mem_cons_self), outputBytes,
        List.map_cons, List.sum_cons]
      omega

/-- So a buffer as long as the view holds every output. -/
theorem serialized_fits {list : List TxOut} {length : Nat}
    (hscript : ∀ o ∈ list, o.scriptPubkey.length < 2 ^ 32)
    (hlength : 72 + outputBytes list ≤ length)
    (hbound : length ≤ maxSignedViewBytes) :
    (list.flatMap Client.serializeOutput).length ≤ length := by
  have hle := serialized_le hscript
  have hmax : maxSignedViewBytes = 1048576 := rfl
  omega

/-! ## The whole predicate -/

variable (sha256 : Bytes → Hash)

theorem finish_eq {committed : Hash} {transaction : Transaction}
    {header sequences outputs : Bytes} {inputIndex : UInt32}
    (hheader : header.take 8
      = i32Le transaction.version ++ u32Le transaction.lockTime)
    (hsequences : sequences
      = transaction.input.flatMap fun input => u32Le input.sequence)
    (houtputs : outputs = transaction.output.flatMap Client.serializeOutput) :
    finish sha256 committed header sequences outputs inputIndex
      = some (Client.templateHash sha256 transaction inputIndex
        == committed) := by
  have hmessage : Client.templateHash sha256 transaction inputIndex
      = sha256 ((sha256 tag).toList ++ (sha256 tag).toList ++ header.take 8 ++
        (sha256 sequences).toList ++ (sha256 outputs).toList ++ [0] ++
        u32Le inputIndex) := by
    rw [hheader, hsequences, houtputs]
    unfold Client.templateHash Client.taggedHash Client.shaSequences
      Client.shaOutputs tag
    simp only [List.append_assoc]
  rw [hmessage]
  rfl

/-- The arena as the host leaves it: parameters first, then the view; an
empty program and an empty witness are not allocated. -/
def hostAllocated (arena : Arena) (view : Bytes) : Arena :=
  ((arena.sapioAllocV1 (UInt32.ofNat 32)).2.sapioAllocV1
    (UInt32.ofNat view.length)).2

theorem used_hostAllocated (arena : Arena) (view : Bytes)
    (h : arena.used + 32 + view.length ≤ inputCapacity) :
    (hostAllocated arena view).used = arena.used + 32 + view.length := by
  have hfirst : arena.used + 32 ≤ inputCapacity := by omega
  rw [hostAllocated, Arena.sapioAllocV1_eq hfirst, Arena.sapioAllocV1_eq h]

theorem committedHash_toList (p : Hash) :
    committedHash p.toList = some p := by
  rw [committedHash, dif_pos Vector.length_toList]
  rfl

/-- The sequence slots, as the client hashes them. -/
theorem flatMap_zip_sequence {txins : List TxIn} {prevouts : List TxOut}
    (h : prevouts.length = txins.length) :
    ((txins.zip prevouts).flatMap fun x => u32Le x.1.sequence)
      = txins.flatMap fun txin => u32Le txin.sequence := by
  have hfst : (txins.zip prevouts).map Prod.fst = txins :=
    List.map_fst_zip (by omega)
  conv_rhs => rw [← hfst, List.flatMap_map]

theorem length_sequences (txins : List TxIn) :
    (txins.flatMap fun txin => u32Le txin.sequence).length
      = 4 * txins.length := by
  induction txins with
  | nil => rfl
  | cons txin txins ih =>
      rw [List.flatMap_cons, List.length_append, length_u32Le, ih,
        List.length_cons]
      omega

theorem length_le_inputBytes (prevouts : List TxOut) :
    52 * prevouts.length ≤ inputBytes prevouts :=
  mul_length_le_sum 52 (fun o : TxOut => o.scriptPubkey.length) prevouts

/-- The parse of the header the host wrote. -/
theorem header_fields (version : Int32) (lockTime index count : UInt32) :
    (i32Le version ++ u32Le lockTime ++ u32Le index ++ u32Le count).take 8
        = i32Le version ++ u32Le lockTime ∧
    Reader.u32FromLe (((i32Le version ++ u32Le lockTime ++ u32Le index ++
      u32Le count).drop 8).take 4) = index ∧
    Reader.u32FromLe (((i32Le version ++ u32Le lockTime ++ u32Le index ++
      u32Le count).drop 12).take 4) = count := by
  have h8 : (i32Le version ++ u32Le lockTime).length = 8 := by
    rw [List.length_append, length_i32Le, length_u32Le]
  have h12 : (i32Le version ++ u32Le lockTime ++ u32Le index).length = 12 := by
    rw [List.length_append, h8, length_u32Le]
  refine ⟨?_, ?_, ?_⟩
  · rw [List.append_assoc (i32Le version ++ u32Le lockTime),
      List.take_left' h8]
  · rw [List.append_assoc (i32Le version ++ u32Le lockTime),
      List.drop_left' h8, List.take_left' (length_u32Le index),
      Reader.u32FromLe_u32Le]
  · rw [List.drop_left' h12, List.take_of_length_le (by rw [length_u32Le]),
      Reader.u32FromLe_u32Le]

/-- How far the predicate reads a view the host encoded: the header, the
sequences and the output count, and where the reader then stands. -/
structure Parsed (input : SigningInput) (view header : Bytes)
    (view₁ view₂ view₃ : Reader) (inputIndex inputCount outputCount : UInt32) :
    Prop where
  take_header : (Reader.new view).take 16 = some (header, view₁)
  header_eq : header.take 8 = i32Le input.psbt.unsignedTx.version ++
    u32Le input.psbt.unsignedTx.lockTime
  index_eq : Reader.u32FromLe ((header.drop 8).take 4) = inputIndex
  count_eq : Reader.u32FromLe ((header.drop 12).take 4) = inputCount
  index_toNat : inputIndex.toNat = input.inputIndex
  count_toNat : inputCount.toNat = input.psbt.unsignedTx.input.length
  fill : fillSequences input.psbt.unsignedTx.input.length view₁
    = some (input.psbt.unsignedTx.input.flatMap
      fun txin => u32Le txin.sequence, view₂)
  u32_eq : view₂.u32 = some (outputCount, view₃)
  outputs_toNat : outputCount.toNat = input.psbt.unsignedTx.output.length
  on_outputs :
    view₃.On (input.psbt.unsignedTx.output.flatMap encodeOutput ++ [])

theorem exists_parsed {input : SigningInput} {view : Bytes}
    (hview : encodeView .v1 input = .ok view) :
    ∃ header view₁ view₂ view₃ inputIndex inputCount outputCount,
      Parsed input view header view₁ view₂ view₃ inputIndex inputCount
        outputCount := by
  obtain ⟨prevouts, tail, inputIndex, inputCount, outputCount, henc⟩ :=
    encodeView_ok hview
  have hmax : maxSignedViewBytes = 1048576 := rfl
  have htail : [] = tail := Except.ok.inj henc.tail_eq
  have hlen := henc.length_eq
  have hbounded := henc.bounded
  have hcount := length_prevouts henc.prevouts_eq
  have hinputScripts : ∀ x ∈ input.psbt.unsignedTx.input.zip prevouts,
      x.2.scriptPubkey.length < 2 ^ 32 := by
    intro x hx
    have hle := script_le_inputBytes (List.of_mem_zip hx).2
    omega
  obtain ⟨hhead, hreadIndex, hreadCount⟩ :=
    header_fields input.psbt.unsignedTx.version
      input.psbt.unsignedTx.lockTime inputIndex inputCount
  have hparts : view = (i32Le input.psbt.unsignedTx.version ++
      u32Le input.psbt.unsignedTx.lockTime ++ u32Le inputIndex ++
      u32Le inputCount) ++
      ((input.psbt.unsignedTx.input.zip prevouts).flatMap
        (fun x => encodeInput x.1 x.2) ++
      (u32Le outputCount ++
        (input.psbt.unsignedTx.output.flatMap encodeOutput ++ []))) := by
    rw [henc.view_eq, ← htail]
    simp only [List.append_assoc, List.append_nil]
  -- Where the reader stands after each part of the view.
  have hon := Reader.on_new (show view.length < 2 ^ 32 by omega) hparts
  obtain ⟨view₁, htake, hon₁⟩ := hon.take (n := 16) (by
    simp only [List.length_append, length_i32Le, length_u32Le])
  obtain ⟨view₂, hfill, hon₂⟩ := fillSequences_ok hinputScripts hon₁
  obtain ⟨view₃, hword, hon₃⟩ := hon₂.u32
  have hslots : (input.psbt.unsignedTx.input.zip prevouts).length
      = input.psbt.unsignedTx.input.length := by
    rw [List.length_zip, hcount, Nat.min_self]
  rw [hslots, flatMap_zip_sequence hcount] at hfill
  exact ⟨_, view₁, view₂, view₃, inputIndex, inputCount, outputCount,
    { take_header := htake
      header_eq := hhead
      index_eq := hreadIndex
      count_eq := hreadCount
      index_toNat := henc.index_eq
      count_toNat := henc.inputCount_eq
      fill := hfill
      u32_eq := hword
      outputs_toNat := henc.outputCount_eq
      on_outputs := hon₃ }⟩

section Parsed

variable {input : SigningInput} {view header : Bytes}
  {view₁ view₂ view₃ : Reader} {inputIndex inputCount outputCount : UInt32}

theorem Parsed.wrapMul_count (h : Parsed input view header view₁ view₂ view₃
    inputIndex inputCount outputCount)
    (hlt : 4 * input.psbt.unsignedTx.input.length < 2 ^ 32) :
    wrapMul 4 inputCount.toNat = 4 * input.psbt.unsignedTx.input.length := by
  rw [h.count_toNat]
  exact Nat.mod_eq_of_lt hlt

theorem Parsed.index_lt (h : Parsed input view header view₁ view₂ view₃
    inputIndex inputCount outputCount)
    (hindex : input.inputIndex < input.psbt.unsignedTx.input.length) :
    ¬ inputIndex.toNat ≥ inputCount.toNat := by
  rw [h.index_toNat, h.count_toNat]
  omega

end Parsed

theorem length_slots (n : Nat) :
    (List.replicate (4 * n) (0 : UInt8)).length / 4 = n := by
  rw [List.length_replicate]
  omega

/-- The sizes of an encoded view the allocations are measured against. -/
theorem encoded_bounds {input : SigningInput} {view : Bytes}
    (hview : encodeView .v1 input = .ok view) :
    20 + 52 * input.psbt.unsignedTx.input.length +
        outputBytes input.psbt.unsignedTx.output ≤ view.length ∧
      view.length ≤ maxSignedViewBytes := by
  obtain ⟨prevouts, tail, _, _, _, henc⟩ := encodeView_ok hview
  have hlen := henc.length_eq
  have hbounded := henc.bounded
  have hcount := length_prevouts henc.prevouts_eq
  have hinputs := length_le_inputBytes prevouts
  rw [hcount] at hinputs
  exact ⟨by omega, by omega⟩

theorem evaluate_eq {input : SigningInput} {view : Bytes} (p : Hash)
    {arena : Arena} (hview : encodeView .v1 input = .ok view)
    (hindex : input.inputIndex < input.psbt.unsignedTx.input.length)
    (hcap : arena.used + view.length + 4 * input.psbt.unsignedTx.input.length
      ≤ inputCapacity) :
    evaluate sha256 arena ⟨[], p.toList, view, []⟩
      = some (Client.templateHash sha256 input.psbt.unsignedTx
        (UInt32.ofNat input.inputIndex) == p) := by
  obtain ⟨header, view₁, view₂, view₃, inputIndex, inputCount, outputCount,
    hparsed⟩ := exists_parsed hview
  obtain ⟨hlower, hupper⟩ := encoded_bounds hview
  have hmax : maxSignedViewBytes = 1048576 := rfl
  have houtputScripts : ∀ o ∈ input.psbt.unsignedTx.output,
      o.scriptPubkey.length < 2 ^ 32 := by
    intro o ho
    have hle := script_le_outputBytes ho
    omega
  -- The two allocations, and the outputs written into the second.
  obtain ⟨arena₁, hscratch₁, hused₁⟩ := scratch_ok arena
    (n := 4 * input.psbt.unsignedTx.input.length) (by omega) (by omega)
  obtain ⟨arena₂, hscratch₂, -⟩ := scratch_ok arena₁
    (n := view.length) (by omega) (by omega)
  have hempty : Filled (List.replicate view.length 0) [] := List.take_zero
  obtain ⟨buffer, view₄, hwrite, hfilled, hon₄⟩ := writeOutputs_ok
    houtputScripts hparsed.on_outputs hempty (by
      rw [List.nil_append, List.length_replicate]
      exact serialized_fits houtputScripts (by omega) (by omega))
    (by rw [List.length_replicate]; omega)
  rw [List.nil_append, List.length_nil] at hwrite
  rw [List.nil_append] at hfilled
  have hmul := hparsed.wrapMul_count (by omega)
  have hover := hparsed.index_lt hindex
  unfold evaluate
  simp only [List.isEmpty_nil, Bool.not_true, Bool.or_self, Bool.false_eq_true,
    if_false, committedHash_toList, hparsed.take_header, hparsed.index_eq,
    hparsed.count_eq, hover, hmul, hscratch₁, length_slots, hparsed.fill,
    hparsed.u32_eq, hscratch₂, hparsed.outputs_toNat, hwrite,
    hon₄.isFinished, Option.bind_eq_bind, Option.bind_some]
  rw [finish_eq sha256 hparsed.header_eq ?_ hfilled]
  · have hsame : inputIndex = UInt32.ofNat input.inputIndex := by
      rw [← hparsed.index_toNat, UInt32.ofNat_toNat]
    rw [hsame]
  · rw [length_sequences, List.drop_of_length_le
      (by rw [List.length_replicate]), List.append_nil]

/-- Two signing inputs with the same template: what BIP-446 commits to. -/
structure SameTemplate (a b : SigningInput) : Prop where
  spend : Client.SameSpend a.psbt.unsignedTx b.psbt.unsignedTx
  inputIndex : a.inputIndex = b.inputIndex

/-- What the arena must have room for: the parameters and the view, then the
sequences and a buffer as long as the view. -/
def Fits (input : SigningInput) (view : Bytes) : Prop :=
  32 + 2 * view.length + 4 * input.psbt.unsignedTx.input.length
    ≤ inputCapacity

theorem evaluate_hostAllocated {input : SigningInput} {view : Bytes}
    (p : Hash) {start : Nat} (hpos : 0 < start)
    (hinside : start + inputCapacity ≤ 2 ^ 32)
    (hview : encodeView .v1 input = .ok view)
    (hindex : input.inputIndex < input.psbt.unsignedTx.input.length)
    (hfits : Fits input view) :
    evaluate sha256 (hostAllocated (Arena.fresh start hpos hinside) view)
        ⟨[], p.toList, view, []⟩
      = some (p == Client.templateHash sha256 input.psbt.unsignedTx
        (UInt32.ofNat input.inputIndex)) := by
  have hroom : (Arena.fresh start hpos hinside).used = 0 := rfl
  unfold Fits at hfits
  have hused := used_hostAllocated (Arena.fresh start hpos hinside) view
    (by omega)
  rw [evaluate_eq sha256 p hview hindex (by omega), BEq.comm]

/-- Over the view the host encodes, in a fresh instance with room for it, the
predicate answers whether its parameter is the client's template hash; and
the answer is the same for any other prevouts under the same template. -/
theorem evaluate_templateHash (sha256 : Bytes → Hash) {start : Nat}
    (hpos : 0 < start) (hinside : start + inputCapacity ≤ 2 ^ 32)
    (input : SigningInput) (view : Bytes) (p : Hash)
    (hview : encodeView .v1 input = .ok view)
    (hindex : input.inputIndex < input.psbt.unsignedTx.input.length)
    (hfits : Fits input view) :
    evaluate sha256 (hostAllocated (Arena.fresh start hpos hinside) view)
        ⟨[], p.toList, view, []⟩
      = some (p == Client.templateHash sha256 input.psbt.unsignedTx
        (UInt32.ofNat input.inputIndex)) ∧
    ∀ other view', encodeView .v1 other = .ok view' →
      SameTemplate input other → Fits other view' →
      evaluate sha256 (hostAllocated (Arena.fresh start hpos hinside) view')
          ⟨[], p.toList, view', []⟩
        = evaluate sha256
          (hostAllocated (Arena.fresh start hpos hinside) view)
          ⟨[], p.toList, view, []⟩ := by
  have hanswer := evaluate_hostAllocated sha256 p hpos hinside hview hindex hfits
  refine ⟨hanswer, ?_⟩
  intro other view' hview' hsame hfits'
  have hcount : other.psbt.unsignedTx.input.length
      = input.psbt.unsignedTx.input.length := by
    have hlen := congrArg List.length hsame.spend.sequences
    rw [List.length_map, List.length_map] at hlen
    exact hlen.symm
  have hindex' : other.inputIndex < other.psbt.unsignedTx.input.length := by
    rw [hcount, ← hsame.inputIndex]
    exact hindex
  rw [hanswer, evaluate_hostAllocated sha256 p hpos hinside hview' hindex' hfits',
    hsame.spend.templateHash_eq, hsame.inputIndex]

/-- A checksum in place of SHA-256, to run the predicate with. -/
def checksum (bytes : Bytes) : Hash :=
  ⟨⟨UInt8.ofNat (bytes.foldl (fun sum b => 3 * sum + b.toNat) 7) ::
    List.replicate 31 0⟩, rfl⟩

theorem evaluate_templateHash_oneInputSpend :
    ∃ view, encodeView .v1 oneInputSpend = .ok view ∧
      evaluate checksum (hostAllocated
        (Arena.fresh 1024 (by decide) (by decide)) view)
        ⟨[], (Client.templateHash checksum oneInputSpend.psbt.unsignedTx
          0).toList, view, []⟩ = some true := by
  obtain ⟨view, hview, hfits⟩ : ∃ view,
      encodeView .v1 oneInputSpend = .ok view ∧ Fits oneInputSpend view :=
    ⟨_, rfl, by unfold Fits; decide⟩
  have hanswer := (@evaluate_templateHash checksum 1024 (by decide)
    (by decide) oneInputSpend view
    (Client.templateHash checksum oneInputSpend.psbt.unsignedTx 0) hview
    (by decide) hfits).1
  refine ⟨view, hview, ?_⟩
  rw [hanswer]
  exact congrArg some (beq_self_eq_true _)

end Predicate

end SapioTee
