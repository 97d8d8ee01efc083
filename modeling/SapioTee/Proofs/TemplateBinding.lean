import SapioTee.Proofs.TemplateHash

/-!
# What a template hash commits to

The message a client hashes has fields of fixed width, and its two inner
messages are sequences of items each of which says where it ends. So without
a collision among the messages that two computations hash, equal template
hashes mean equal templates.
-/

namespace SapioTee

open Lib

namespace Client

/-- A compact size, read back. -/
def compactSize : Parser Nat := do
  let marker ← Parser.word 1
  if marker < 253 then pure marker
  else if marker = 253 then Parser.word 2
  else if marker = 254 then Parser.word 4
  else Parser.word 8

theorem reads_byte (b : UInt8) : Reads (Parser.word 1) [b] b.toNat := by
  have hread := @reads_word 1 b.toNat b.toNat_lt
  have hbyte : leBytes 1 b.toNat = [b] := leBytes_leNat [b]
  rwa [hbyte] at hread

theorem reads_compactSize (n : UInt64) :
    Reads compactSize (pushCompactSize n) n.toNat := by
  have hmarked : ∀ (marker : UInt8) (w : Nat), n.toNat < 256 ^ w →
      (if marker.toNat < 253 then (pure marker.toNat : Parser Nat)
        else if marker.toNat = 253 then Parser.word 2
        else if marker.toNat = 254 then Parser.word 4
        else Parser.word 8) = Parser.word w →
      Reads compactSize (marker :: leBytes w n.toNat) n.toNat := by
    intro marker w hsize hword
    have hrest : Reads (if marker.toNat < 253
          then (pure marker.toNat : Parser Nat)
        else if marker.toNat = 253 then Parser.word 2
        else if marker.toNat = 254 then Parser.word 4
        else Parser.word 8) (leBytes w n.toNat) n.toNat := by
      rw [hword]
      exact reads_word hsize
    exact (reads_byte marker).bind hrest
  unfold pushCompactSize
  split
  · next hsmall =>
      have hsize : n.toNat < 253 := hsmall
      have hbyte : n.toUInt8.toNat = n.toNat := by
        rw [UInt64.toNat_toUInt8, Nat.mod_eq_of_lt (by omega)]
      have hrest : Reads (if n.toUInt8.toNat < 253
            then (pure n.toUInt8.toNat : Parser Nat)
          else if n.toUInt8.toNat = 253 then Parser.word 2
          else if n.toUInt8.toNat = 254 then Parser.word 4
          else Parser.word 8) [] n.toNat := by
        rw [hbyte, if_pos hsize]
        exact Reads.pure _
      exact (reads_byte n.toUInt8).bind hrest
  · split
    · next hword =>
        have hsize : n.toNat ≤ 0xFFFF := hword
        exact hmarked 0xFD 2 (by omega) rfl
    · split
      · next hword =>
          have hsize : n.toNat ≤ 0xFFFFFFFF := hword
          exact hmarked 0xFE 4 (by omega) rfl
      · have hsize := n.toNat_lt
        exact hmarked 0xFF 8 (by omega) rfl

/-- An output as it is hashed, read back. -/
def hashedOutput : Parser TxOut := do
  let value ← readU64
  let length ← compactSize
  let script ← Parser.take length
  pure ⟨value, script⟩

theorem reads_hashedOutput {output : TxOut}
    (h : output.scriptPubkey.length < 2 ^ 64) :
    Reads hashedOutput (serializeOutput output) output := by
  have hsize := reads_compactSize (UInt64.ofNat output.scriptPubkey.length)
  rw [UInt64.toNat_ofNat_of_lt' h] at hsize
  unfold serializeOutput hashedOutput
  rw [List.append_assoc]
  exact (reads_u64 output.value).bind (hsize.bind
    ((reads_take output.scriptPubkey).bind_pure (TxOut.mk output.value)))

theorem serializeOutput_ne_nil (output : TxOut) :
    serializeOutput output ≠ [] := by
  intro h
  have hlen := congrArg List.length h
  unfold serializeOutput at hlen
  rw [List.length_append, List.length_append, length_u64Le,
    List.length_nil] at hlen
  omega

/-- Every script has a length the client can write down. -/
def Sized (outputs : List TxOut) : Prop :=
  ∀ o ∈ outputs, o.scriptPubkey.length < 2 ^ 64

theorem outputs_inj {xs ys : List TxOut} (hxs : Sized xs) (hys : Sized ys)
    (h : xs.flatMap serializeOutput = ys.flatMap serializeOutput) :
    xs = ys := by
  have hsame := @flatMap_inj _ _ _ _ id serializeOutput_ne_nil xs ys
    (fun o ho => reads_hashedOutput (hxs o ho))
    (fun o ho => reads_hashedOutput (hys o ho)) h
  rwa [List.map_id, List.map_id] at hsame

theorem sequences_inj {xs ys : List TxIn}
    (h : (xs.flatMap fun input => u32Le input.sequence)
      = ys.flatMap fun input => u32Le input.sequence) :
    xs.map TxIn.sequence = ys.map TxIn.sequence := by
  refine flatMap_inj ?_ (fun x _ => reads_u32 x.sequence)
    (fun y _ => reads_u32 y.sequence) h
  intro input hnil
  have hlen := congrArg List.length hnil
  rw [length_u32Le] at hlen
  cases hlen

/-- The fields of the hashed message, read back. -/
def templateFields : Parser (Int32 × UInt32 × Hash × Hash × UInt32) := do
  let version ← readI32
  let lockTime ← readU32
  let sequences ← Parser.bytes 32
  let outputs ← Parser.bytes 32
  let _ ← Parser.take 1
  let index ← readU32
  pure (version, lockTime, sequences, outputs, index)

variable (sha256 : Bytes → Hash)

/-- The message under the tag. -/
def templateMessage (tx : Transaction) (index : UInt32) : Bytes :=
  i32Le tx.version ++ u32Le tx.lockTime ++ (shaSequences sha256 tx).toList ++
    (shaOutputs sha256 tx).toList ++ [0] ++ u32Le index

theorem reads_templateMessage (tx : Transaction) (index : UInt32) :
    Reads templateFields (templateMessage sha256 tx index)
      (tx.version, tx.lockTime, shaSequences sha256 tx, shaOutputs sha256 tx,
        index) := by
  unfold templateFields templateMessage
  simp only [List.append_assoc]
  refine (reads_i32 tx.version).bind ?_
  refine (reads_u32 tx.lockTime).bind ?_
  refine (reads_bytes (shaSequences sha256 tx)).bind ?_
  refine (reads_bytes (shaOutputs sha256 tx)).bind ?_
  refine (reads_take [0]).bind ?_
  exact (reads_u32 index).bind_pure _

/-- The messages one computation of the template hash hashes, the tag
apart. -/
def hashed (tx : Transaction) (index : UInt32) : List Bytes :=
  [tx.input.flatMap fun input => u32Le input.sequence,
    tx.output.flatMap serializeOutput,
    (sha256 (ascii "TemplateHash")).toList ++
      (sha256 (ascii "TemplateHash")).toList ++ templateMessage sha256 tx index]

theorem templateHash_inj {a b : Transaction} {i j : UInt32}
    (ha : Sized a.output) (hb : Sized b.output)
    (hfree : CollisionFree sha256 (hashed sha256 a i ++ hashed sha256 b j))
    (h : templateHash sha256 a i = templateHash sha256 b j) :
    SameSpend a b ∧ i = j := by
  have hleft : ∀ m ∈ hashed sha256 a i, m ∈ hashed sha256 a i ++
      hashed sha256 b j := fun m hm => List.mem_append_left _ hm
  have hright : ∀ m ∈ hashed sha256 b j, m ∈ hashed sha256 a i ++
      hashed sha256 b j := fun m hm => List.mem_append_right _ hm
  have hmessage := hfree _ (hleft _ (by simp [hashed])) _
    (hright _ (by simp [hashed])) (show sha256 (_ ++ templateMessage sha256 a i)
      = sha256 (_ ++ templateMessage sha256 b j) from h)
  have hfields := List.append_cancel_left hmessage
  have hread := reads_templateMessage sha256 a i
  rw [hfields] at hread
  have hsame := hread.unique (reads_templateMessage sha256 b j)
  injection hsame with hversion hsame
  injection hsame with hlock hsame
  injection hsame with hsequences hsame
  injection hsame with houtputs hindex
  have hsequencesEq := hfree _ (hleft _ (by simp [hashed])) _
    (hright _ (by simp [hashed])) hsequences
  have houtputsEq := hfree _ (hleft _ (by simp [hashed])) _
    (hright _ (by simp [hashed])) houtputs
  exact ⟨⟨hversion, hlock, sequences_inj hsequencesEq,
    outputs_inj ha hb houtputsEq⟩, hindex⟩

end Client

end SapioTee
