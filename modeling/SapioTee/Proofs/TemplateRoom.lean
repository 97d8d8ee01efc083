import SapioTee.Proofs.TemplateHash
import SapioTee.Proofs.ViewBound

/-!
# Which transactions the template predicate has room to decide

The arena is one view and three arguments long, which is what the host
allocates at most. The predicate then takes a second buffer as long as the
view from the same arena, so it has room only while the two buffers, the
parameters and the sequences fit together: up to a little over half of what
the host admits. Past that `scratch` answers nothing and so does `evaluate`,
for every committed hash.
-/

namespace SapioTee

open Lib

namespace Predicate

open Guest

/-- An allocation past the end of the arena. -/
theorem scratch_none {arena : Arena} {n : Nat} (hn : n < 2 ^ 32)
    (h : inputCapacity < arena.used + n) : scratch arena n = none := by
  have hsize : (UInt32.ofNat n).toNat = n := UInt32.toNat_ofNat_of_lt' hn
  have halloc : (arena.sapioAllocV1 (UInt32.ofNat n)).1 = 0 := by
    unfold Arena.sapioAllocV1
    rw [hsize]
    split
    · rfl
    · next stop hstop =>
        rw [checkedAdd32] at hstop
        split at hstop
        · injection hstop with hstop
          rw [dif_neg (by omega)]
        · cases hstop
  unfold scratch
  rw [tryU32, if_pos hn]
  show (if (arena.sapioAllocV1 (UInt32.ofNat n)).1 = 0 ∨ n = 0 then none
    else some (List.replicate n 0, (arena.sapioAllocV1 (UInt32.ofNat n)).2))
      = none
  rw [if_pos (.inl halloc)]

variable (sha256 : Bytes → Hash)

theorem evaluate_none_of_index {input : SigningInput} {view : Bytes} (p : Hash)
    {arena : Arena} (hview : encodeView .v1 input = .ok view)
    (hindex : input.psbt.unsignedTx.input.length ≤ input.inputIndex) :
    evaluate sha256 arena ⟨[], p.toList, view, []⟩ = none := by
  obtain ⟨header, view₁, view₂, view₃, inputIndex, inputCount, outputCount,
    hparsed⟩ := exists_parsed hview
  have hover : inputIndex.toNat ≥ inputCount.toNat := by
    rw [hparsed.index_toNat, hparsed.count_toNat]
    exact hindex
  unfold evaluate
  simp only [List.isEmpty_nil, Bool.not_true, Bool.or_self, Bool.false_eq_true,
    if_false, committedHash_toList, hparsed.take_header, hparsed.index_eq,
    hparsed.count_eq, hover, if_true, Option.bind_eq_bind, Option.bind_some]

/-- The sequences always fit; it is the second buffer that does not. -/
theorem evaluate_none_of_room {input : SigningInput} {view : Bytes} (p : Hash)
    {arena : Arena} (hview : encodeView .v1 input = .ok view)
    (hindex : input.inputIndex < input.psbt.unsignedTx.input.length)
    (hused : arena.used ≤ 32 + view.length)
    (hfull : inputCapacity
      < arena.used + view.length + 4 * input.psbt.unsignedTx.input.length) :
    evaluate sha256 arena ⟨[], p.toList, view, []⟩ = none := by
  obtain ⟨header, view₁, view₂, view₃, inputIndex, inputCount, outputCount,
    hparsed⟩ := exists_parsed hview
  obtain ⟨hlower, hupper⟩ := encoded_bounds hview
  have hmax : maxSignedViewBytes = 1048576 := rfl
  have hcapacity : inputCapacity = 1245184 := rfl
  obtain ⟨arena₁, hscratch₁, hused₁⟩ := scratch_ok arena
    (n := 4 * input.psbt.unsignedTx.input.length) (by omega) (by omega)
  have hscratch₂ : scratch arena₁ view.length = none :=
    scratch_none (by omega) (by omega)
  have hmul := hparsed.wrapMul_count (by omega)
  have hover := hparsed.index_lt hindex
  unfold evaluate
  simp only [List.isEmpty_nil, Bool.not_true, Bool.or_self, Bool.false_eq_true,
    if_false, committedHash_toList, hparsed.take_header, hparsed.index_eq,
    hparsed.count_eq, hover, hmul, hscratch₁, length_slots, hparsed.fill,
    hparsed.u32_eq, hscratch₂, Option.bind_eq_bind, Option.bind_some,
    Option.bind_none]

/-- The predicate decides a transaction the host admits exactly when the
selected input exists and the arena holds the parameters, the sequences and
the view twice. -/
theorem evaluate_decides_iff (sha256 : Bytes → Hash) {start : Nat}
    (hpos : 0 < start) (hinside : start + inputCapacity ≤ 2 ^ 32)
    (input : SigningInput) (view : Bytes) (p : Hash)
    (hview : encodeView .v1 input = .ok view) :
    (∃ answer, evaluate sha256
        (hostAllocated (Arena.fresh start hpos hinside) view)
        ⟨[], p.toList, view, []⟩ = some answer) ↔
      input.inputIndex < input.psbt.unsignedTx.input.length ∧
        Fits input view := by
  obtain ⟨-, hupper⟩ := encoded_bounds hview
  have hmax : maxSignedViewBytes = 1048576 := rfl
  have hcapacity : inputCapacity = 1245184 := rfl
  have hfresh : (Arena.fresh start hpos hinside).used = 0 := rfl
  have hused := used_hostAllocated (Arena.fresh start hpos hinside) view
    (by omega)
  constructor
  · rintro ⟨answer, hanswer⟩
    by_cases hindex : input.inputIndex < input.psbt.unsignedTx.input.length
    · refine ⟨hindex, ?_⟩
      by_cases hfits : Fits input view
      · exact hfits
      · unfold Fits at hfits
        rw [evaluate_none_of_room sha256 p hview hindex (by omega) (by omega)]
          at hanswer
        cases hanswer
    · rw [evaluate_none_of_index sha256 p hview (by omega)] at hanswer
      cases hanswer
  · rintro ⟨hindex, hfits⟩
    exact ⟨_, evaluate_hostAllocated sha256 p hpos hinside hview hindex hfits⟩

theorem evaluate_decides_iff_oneInputSpend :
    ∃ view, encodeView .v1 oneInputSpend = .ok view ∧
      ∃ answer, evaluate checksum (hostAllocated
        (Arena.fresh 1024 (by decide) (by decide)) view)
        ⟨[], (Vector.replicate 32 7).toList, view, []⟩ = some answer := by
  obtain ⟨view, hview, hfits⟩ : ∃ view,
      encodeView .v1 oneInputSpend = .ok view ∧ Fits oneInputSpend view :=
    ⟨_, rfl, by unfold Fits; decide⟩
  exact ⟨view, hview, (@evaluate_decides_iff checksum 1024 (by decide)
    (by decide) oneInputSpend view (Vector.replicate 32 7) hview).mpr
    ⟨by decide, hfits⟩⟩

/-- One input, and one output that pays the given script. -/
def payTo (script : Script) : SigningInput where
  psbt :=
    { unsignedTx := ⟨2, 0, [⟨⟨Vector.replicate 32 7, 1⟩, 0⟩], [⟨900, script⟩]⟩
      inputs := [⟨some ⟨1000, [82]⟩, none, none, none, []⟩]
      inputs_length := rfl }
  inputIndex := 0
  context := []

theorem viewBytes_payTo (script : Script) :
    viewBytes .v1 (payTo script) = 85 + script.length := by
  show 20 + (52 + 1 + 0) + (12 + script.length + 0) + 0 = 85 + script.length
  omega

theorem exists_view_payTo {script : Script}
    (h : 85 + script.length ≤ maxSignedViewBytes) :
    ∃ view, encodeView .v1 (payTo script) = .ok view ∧
      view.length = 85 + script.length := by
  obtain ⟨view, hview⟩ : ∃ view, encodeView .v1 (payTo script) = .ok view := by
    refine (exists_encodeView_iff ?_ Nat.zero_lt_one).mpr ⟨?_, nofun⟩
    · intro map hmem
      rw [List.mem_singleton.mp hmem]
      rfl
    · rw [viewBytes_payTo]
      exact h
  refine ⟨view, hview, ?_⟩
  rw [length_encodeView hview, viewBytes_payTo]

/-- A transaction of 700 kilobytes is admitted and never decided. -/
theorem large_output_undecided :
    ¬ ∀ (sha256 : Bytes → Hash) (start : Nat) (hpos : 0 < start)
        (hinside : start + inputCapacity ≤ 2 ^ 32) (input : SigningInput)
        (view : Bytes) (p : Hash),
        input.psbt.unsignedTx.input ≠ [] →
        input.inputIndex < input.psbt.unsignedTx.input.length →
        encodeView .v1 input = .ok view →
        ∃ answer, evaluate sha256
          (hostAllocated (Arena.fresh start hpos hinside) view)
          ⟨[], p.toList, view, []⟩ = some answer := by
  intro h
  obtain ⟨script, hscript⟩ : ∃ script : Script, script.length = 700000 :=
    ⟨List.replicate 700000 81, List.length_replicate⟩
  have hmax : maxSignedViewBytes = 1048576 := rfl
  obtain ⟨view, hview, hlen⟩ := @exists_view_payTo script (by omega)
  have hcapacity : inputCapacity = 1245184 := rfl
  have hused := used_hostAllocated
    (Arena.fresh 1024 (by decide) (by decide)) view (by
      show 0 + 32 + view.length ≤ inputCapacity
      omega)
  obtain ⟨answer, hanswer⟩ := h checksum 1024 (by decide) (by decide)
    (payTo script) view (Vector.replicate 32 7) (List.cons_ne_nil _ _)
    Nat.zero_lt_one hview
  have hfresh : (Arena.fresh 1024 (by decide) (by decide)).used = 0 := rfl
  rw [evaluate_none_of_room checksum _ hview Nat.zero_lt_one (by omega)
    (by omega)] at hanswer
  cases hanswer

end Predicate

end SapioTee
