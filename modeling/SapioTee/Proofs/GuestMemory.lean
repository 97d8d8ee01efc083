import SapioTee.Lib.Memory
import SapioTee.Model.Symbolic
import SapioTee.Proofs.Budget
import SapioTee.Proofs.View

/-!
# What the guest is shown

The allocator is the guest's own code: it may answer any pointer, rewrite
its memory and grow it at each of up to four calls. `Allocations` is the loop
over those calls when nothing is refused, in exact integers and with regions
as sets of addresses; `Refused` is the call at which it stops. Once the loop
has gone through, the regions lie inside the memory and do not meet, so the
copies cannot fail and the library's writes apply: each region holds its
input and every other byte is as the allocator left it.
-/

namespace SapioTee

open Lib

variable {T : Types} (C : Crates T)

/-! ## The allocations -/

/-- The address belongs to the range. -/
def Range.Holds (r : Range) (a : Nat) : Prop := r.start ≤ a ∧ a < r.stop

def Range.Apart (r s : Range) : Prop := ∀ a, ¬ (r.Holds a ∧ s.Holds a)

/-- The region a pointer and an input name, the pointer read as unsigned. -/
def regionOf (pointer : Int32) (bytes : Bytes) : Range :=
  ⟨pointer.toUInt32.toNat, pointer.toUInt32.toNat + bytes.length⟩

/-- The loop goes through: from the ranges and the store of the inputs
before, over these inputs, to all ranges and the store left behind. -/
inductive Allocations : List Range → Store T → List Bytes → List Range →
    Store T → Prop
  | nil (ranges : List Range) (store : Store T) :
      Allocations ranges store [] ranges store
  | empty {ranges all : List Range} {store left : Store T}
      {inputs : List Bytes} :
      Allocations (ranges ++ [⟨0, 0⟩]) store inputs all left →
      Allocations ranges store ([] :: inputs) all left
  | region {ranges all : List Range} {store next left : Store T}
      {bytes : Bytes} {inputs : List Bytes} {pointer : Int32} :
      bytes ≠ [] →
      C.allocate store (Int32.ofNat bytes.length) = (.ok pointer, next) →
      (regionOf pointer bytes).stop ≤ next.memory.length →
      (∀ previous ∈ ranges, (regionOf pointer bytes).Apart previous) →
      Allocations (ranges ++ [regionOf pointer bytes]) next inputs all left →
      Allocations ranges store (bytes :: inputs) all left

/-- The allocation of a nonempty input traps, ends outside the memory as it
then is, or meets an earlier region. -/
def BadAllocation (store : Store T) (ranges : List Range) (bytes : Bytes) :
    Prop :=
  bytes ≠ [] ∧
    ((∃ error next, C.allocate store (Int32.ofNat bytes.length)
        = (.error error, next)) ∨
      ∃ pointer next, C.allocate store (Int32.ofNat bytes.length)
          = (.ok pointer, next) ∧
        (next.memory.length < (regionOf pointer bytes).stop ∨
          ∃ previous ∈ ranges, ∃ a,
            (regionOf pointer bytes).Holds a ∧ previous.Holds a))

/-- The loop goes through some inputs and then meets a bad allocation. -/
def Refused (ranges : List Range) (store : Store T) (inputs : List Bytes) :
    Prop :=
  ∃ done bytes rest mid next, inputs = done ++ bytes :: rest ∧
    Allocations C ranges store done mid next ∧ BadAllocation C next mid bytes

theorem Range.overlaps_iff {r previous : Range} (h : r.start < r.stop) :
    r.overlaps previous = true ↔ ∃ a, r.Holds a ∧ previous.Holds a := by
  unfold Range.overlaps Range.isEmpty Range.Holds
  simp only [Bool.not_not, Bool.and_eq_true, decide_eq_true_eq]
  constructor
  · rintro ⟨⟨hprevious, hlow⟩, hhigh⟩
    exact ⟨max r.start previous.start, ⟨by omega, by omega⟩, by omega, by omega⟩
  · rintro ⟨a, ⟨hlow, hhigh⟩, hlow', hhigh'⟩
    exact ⟨⟨by omega, by omega⟩, by omega⟩

/-- The end of a region does not wrap: a 32-bit pointer and a bounded
length. -/
theorem regionOf_stop {pointer : Int32} {bytes : Bytes}
    (h : bytes.length ≤ maxSignedViewBytes) :
    (pointer.toUInt32.toNat + bytes.length) % 2 ^ 64
      = (regionOf pointer bytes).stop := by
  have hmax : maxSignedViewBytes = 1048576 := rfl
  have hpointer := pointer.toUInt32.toNat_lt
  rw [regionOf, Nat.mod_eq_of_lt (by omega)]

theorem regionOf_eta (pointer : Int32) (bytes : Bytes) :
    (⟨pointer.toUInt32.toNat, (regionOf pointer bytes).stop⟩ : Range)
      = regionOf pointer bytes := rfl

theorem regionOf_nonempty {pointer : Int32} {bytes : Bytes} (h : bytes ≠ []) :
    (regionOf pointer bytes).start < (regionOf pointer bytes).stop := by
  have hlen := List.length_pos_iff.mpr h
  show pointer.toUInt32.toNat < pointer.toUInt32.toNat + bytes.length
  omega

theorem any_overlaps_iff {ranges : List Range} {pointer : Int32}
    {bytes : Bytes} (h : bytes ≠ []) :
    ranges.any (regionOf pointer bytes).overlaps = true ↔
      ∃ previous ∈ ranges, ∃ a,
        (regionOf pointer bytes).Holds a ∧ previous.Holds a := by
  rw [List.any_eq_true]
  constructor
  · rintro ⟨previous, hmem, hover⟩
    exact ⟨previous, hmem,
      (Range.overlaps_iff (regionOf_nonempty h)).mp hover⟩
  · rintro ⟨previous, hmem, hmeet⟩
    exact ⟨previous, hmem,
      (Range.overlaps_iff (regionOf_nonempty h)).mpr hmeet⟩

variable {C}

/-- One turn of the loop over a nonempty input, in the relation's terms. -/
theorem allocateAll_cons {version : WasmVersion} {bytes : Bytes}
    {inputs : List Bytes} {ranges : List Range} {store : Store T}
    (hne : bytes ≠ []) (hlen : bytes.length ≤ maxSignedViewBytes) :
    (BadAllocation C store ranges bytes ∧
      ∃ fault, allocateAll C version (bytes :: inputs) ranges store
        = .error fault) ∨
    ∃ pointer next, C.allocate store (Int32.ofNat bytes.length)
        = (.ok pointer, next) ∧
      (regionOf pointer bytes).stop ≤ next.memory.length ∧
      (∀ previous ∈ ranges, (regionOf pointer bytes).Apart previous) ∧
      allocateAll C version (bytes :: inputs) ranges store
        = allocateAll C version inputs (ranges ++ [regionOf pointer bytes])
          next := by
  have hempty : bytes.isEmpty = false := by
    rw [Bool.eq_false_iff]
    intro h
    exact hne (List.isEmpty_iff.mp h)
  cases hcall : C.allocate store (Int32.ofNat bytes.length) with
  | mk result next =>
      cases result with
      | error error =>
          refine .inl ⟨⟨hne, .inl ⟨error, next, hcall⟩⟩, ?_⟩
          simp only [allocateAll, hempty, Bool.false_eq_true, if_false, hcall]
          exact ⟨_, rfl⟩
      | ok pointer =>
          by_cases hout : next.memory.length < (regionOf pointer bytes).stop
          · refine .inl ⟨⟨hne, .inr ⟨pointer, next, hcall, .inl hout⟩⟩, ?_⟩
            simp only [allocateAll, hempty, Bool.false_eq_true, if_false,
              hcall, regionOf_stop hlen, gt_iff_lt, hout, if_true]
            exact ⟨_, rfl⟩
          · by_cases hmeet : ranges.any (regionOf pointer bytes).overlaps = true
            · refine .inl ⟨⟨hne, .inr ⟨pointer, next, hcall,
                .inr ((any_overlaps_iff hne).mp hmeet)⟩⟩, ?_⟩
              simp only [allocateAll, hempty, Bool.false_eq_true, if_false,
                hcall, regionOf_stop hlen, regionOf_eta, gt_iff_lt, hout, hmeet,
                if_true]
              exact ⟨_, rfl⟩
            · refine .inr ⟨pointer, next, rfl, by omega, ?_, ?_⟩
              · intro previous hmem a hholds
                exact hmeet ((any_overlaps_iff hne).mpr
                  ⟨previous, hmem, a, hholds⟩)
              · simp only [allocateAll, hempty, Bool.false_eq_true, if_false,
                  hcall, regionOf_stop hlen, regionOf_eta, gt_iff_lt, hout,
                  hmeet]

theorem not_bad_of_region {ranges : List Range} {store next : Store T}
    {bytes : Bytes} {pointer : Int32}
    (hcall : C.allocate store (Int32.ofNat bytes.length) = (.ok pointer, next))
    (hinside : (regionOf pointer bytes).stop ≤ next.memory.length)
    (hapart : ∀ previous ∈ ranges, (regionOf pointer bytes).Apart previous) :
    ¬ BadAllocation C store ranges bytes := by
  rintro ⟨-, ⟨error, next', hcall'⟩ | ⟨pointer', next', hcall', hbad⟩⟩
  · rw [hcall] at hcall'
    cases hcall'
  · rw [hcall] at hcall'
    injection hcall' with hpointer hnext
    injection hpointer with hpointer
    subst hpointer hnext
    rcases hbad with hout | ⟨previous, hmem, a, hholds⟩
    · omega
    · exact hapart previous hmem a hholds

theorem allocations_of_ok {version : WasmVersion} {inputs : List Bytes}
    {ranges all : List Range} {store left : Store T}
    (hlen : ∀ bytes ∈ inputs, bytes.length ≤ maxSignedViewBytes)
    (h : allocateAll C version inputs ranges store = .ok (all, left)) :
    Allocations C ranges store inputs all left := by
  induction inputs generalizing ranges store with
  | nil =>
      injection h with h
      injection h with hranges hstore
      subst hranges hstore
      exact .nil ranges store
  | cons bytes inputs ih =>
      have hrest : ∀ x ∈ inputs, x.length ≤ maxSignedViewBytes :=
        fun x hx => hlen x (List.mem_cons_of_mem bytes hx)
      by_cases hne : bytes = []
      · subst hne
        exact .empty (ih hrest h)
      · rcases @allocateAll_cons T C version bytes inputs ranges store hne
          (hlen bytes List.mem_cons_self) with
          ⟨-, fault, hfault⟩ | ⟨pointer, next, hcall, hinside, hapart, heq⟩
        · rw [hfault] at h
          cases h
        · rw [heq] at h
          exact .region hne hcall hinside hapart (ih hrest h)

/-- The loop refuses exactly at a bad allocation. -/
theorem allocateAll_error_iff {version : WasmVersion} {inputs : List Bytes}
    {ranges : List Range} {store : Store T}
    (hlen : ∀ bytes ∈ inputs, bytes.length ≤ maxSignedViewBytes) :
    (∃ fault, allocateAll C version inputs ranges store = .error fault) ↔
      Refused C ranges store inputs := by
  induction inputs generalizing ranges store with
  | nil =>
      refine ⟨fun ⟨_, h⟩ => (nomatch h), ?_⟩
      rintro ⟨done, bytes, rest, _, _, heq, -⟩
      exact absurd heq.symm (List.append_ne_nil_of_right_ne_nil done
        (List.cons_ne_nil bytes rest))
  | cons bytes inputs ih =>
      have hrest : ∀ x ∈ inputs, x.length ≤ maxSignedViewBytes :=
        fun x hx => hlen x (List.mem_cons_of_mem bytes hx)
      by_cases hne : bytes = []
      · subst hne
        show (∃ fault, allocateAll C version inputs (ranges ++ [⟨0, 0⟩]) store
          = .error fault) ↔ _
        rw [ih hrest]
        constructor
        · rintro ⟨done, bad, rest, mid, next, rfl, hdone, hbad⟩
          exact ⟨[] :: done, bad, rest, mid, next, rfl, .empty hdone, hbad⟩
        · rintro ⟨done, bad, rest, mid, next, heq, hdone, hbad⟩
          cases done with
          | nil =>
              injection heq with hbytes _
              exact absurd hbytes.symm hbad.1
          | cons x done =>
              injection heq with hx hinputs
              subst hx
              cases hdone with
              | empty hdone =>
                  exact ⟨done, bad, rest, mid, next, hinputs, hdone, hbad⟩
              | region hx _ _ _ _ => exact absurd rfl hx
      · rcases @allocateAll_cons T C version bytes inputs ranges store hne
          (hlen bytes List.mem_cons_self) with
          ⟨hbad, hfault⟩ | ⟨pointer, next, hcall, hinside, hapart, heq⟩
        · exact ⟨fun _ => ⟨[], bytes, inputs, ranges, store, rfl,
            .nil ranges store, hbad⟩, fun _ => hfault⟩
        · rw [heq, ih hrest]
          constructor
          · rintro ⟨done, bad, rest, mid, last, rfl, hdone, hbad⟩
            exact ⟨bytes :: done, bad, rest, mid, last, rfl,
              .region hne hcall hinside hapart hdone, hbad⟩
          · rintro ⟨done, bad, rest, mid, last, hinputs, hdone, hbad⟩
            cases done with
            | nil =>
                injection hinputs with hbytes _
                subst hbytes
                cases hdone
                exact absurd hbad
                  (not_bad_of_region hcall hinside hapart)
            | cons x done =>
                injection hinputs with hx hinputs
                subst hx
                cases hdone with
                | empty _ => exact absurd rfl hne
                | region _ hcall' _ _ hdone =>
                    rw [hcall] at hcall'
                    injection hcall' with hpointer hnext
                    injection hpointer with hpointer
                    subst hpointer hnext
                    exact ⟨done, bad, rest, mid, last, hinputs, hdone, hbad⟩

/-! ## The regions -/

/-- The range of an input: as long as it, and the null one if it is
empty. -/
structure RegionFor (bytes : Bytes) (r : Range) : Prop where
  stop_eq : r.stop = r.start + bytes.length
  start_lt : r.start < 2 ^ 32
  start_eq : bytes = [] → r.start = 0

theorem regionFor_regionOf (pointer : Int32) {bytes : Bytes} (h : bytes ≠ []) :
    RegionFor bytes (regionOf pointer bytes) :=
  ⟨rfl, pointer.toUInt32.toNat_lt, fun hempty => absurd hempty h⟩

theorem Range.Apart.symm {r s : Range} (h : r.Apart s) : s.Apart r :=
  fun a hboth => h a hboth.symm

/-- What the loop keeps of the ranges it has collected. -/
structure Collected (ranges : List Range) (store : Store T) : Prop where
  inside : ∀ r ∈ ranges, r.stop ≤ store.memory.length
  apart : ranges.Pairwise Range.Apart

theorem Collected.concat {ranges : List Range} {store next : Store T}
    {r : Range} (h : Collected ranges store)
    (hgrow : store.memory.length ≤ next.memory.length)
    (hinside : r.stop ≤ next.memory.length)
    (hapart : ∀ previous ∈ ranges, r.Apart previous) :
    Collected (ranges ++ [r]) next := by
  constructor
  · intro x hx
    rcases List.mem_append.mp hx with hx | hx
    · exact Nat.le_trans (h.inside x hx) hgrow
    · rw [List.mem_singleton.mp hx]
      exact hinside
  · refine List.pairwise_append.mpr ⟨h.apart, List.pairwise_singleton _ _, ?_⟩
    intro x hx y hy
    rw [List.mem_singleton.mp hy]
    exact (hapart x hx).symm

/-- The allocator never shrinks the memory. -/
def NeverShrinks (C : Crates T) : Prop :=
  ∀ store size, store.memory.length ≤ (C.allocate store size).2.memory.length

theorem Allocations.collected (hgrow : NeverShrinks C) {inputs : List Bytes}
    {ranges all : List Range} {store left : Store T}
    (h : Allocations C ranges store inputs all left)
    (hranges : Collected ranges store) :
    Collected all left ∧
      ∃ new, all = ranges ++ new ∧ List.Forall₂ RegionFor inputs new := by
  induction h with
  | nil ranges store =>
      exact ⟨hranges, [], (List.append_nil ranges).symm, .nil⟩
  | empty _ ih =>
      have hempty : ∀ r : Range, Range.Apart ⟨0, 0⟩ r :=
        fun r a hboth => absurd hboth.1.2 (Nat.not_lt_zero a)
      obtain ⟨hall, new, hnew, hregions⟩ := ih (hranges.concat
        (Nat.le_refl _) (Nat.zero_le _) fun previous _ => hempty previous)
      refine ⟨hall, ⟨0, 0⟩ :: new, ?_, .cons ⟨rfl, by decide, fun _ => rfl⟩
        hregions⟩
      rw [hnew, List.append_assoc]
      rfl
  | @region ranges all store next left bytes inputs pointer hne hcall hinside
      hapart _ ih =>
      have hmemory := hgrow store (Int32.ofNat bytes.length)
      rw [hcall] at hmemory
      obtain ⟨hall, new, hnew, hregions⟩ :=
        ih (hranges.concat hmemory hinside hapart)
      refine ⟨hall, regionOf pointer bytes :: new, ?_,
        .cons (regionFor_regionOf pointer hne) hregions⟩
      rw [hnew, List.append_assoc]
      rfl

/-! ## The copies -/

/-- An input and its range, as a write. -/
def writeOf (x : Bytes × Range) : Nat × Bytes := (x.2.start, x.1)

theorem copyAll_eq {pairs : List (Bytes × Range)} {store : Store T}
    (h : ∀ w ∈ pairs.map writeOf, w.1 + w.2.length ≤ store.memory.length) :
    copyAll pairs store = .ok
      ⟨overwriteAll (pairs.map writeOf) store.memory, store.guest⟩ := by
  induction pairs generalizing store with
  | nil => rfl
  | cons x pairs ih =>
      obtain ⟨bytes, range⟩ := x
      have hfits : range.start + bytes.length ≤ store.memory.length :=
        h (writeOf (bytes, range)) List.mem_cons_self
      have hwrite : store.write range.start bytes
          = .ok ⟨overwrite store.memory range.start bytes, store.guest⟩ := by
        rw [Store.write, if_pos hfits]
        rfl
      rw [copyAll, hwrite, ok_bind, ih]
      · rfl
      · intro w hw
        rw [length_overwrite hfits]
        exact h w (List.mem_cons_of_mem _ hw)

theorem writes_length {inputs : List Bytes} {all : List Range}
    (h : List.Forall₂ RegionFor inputs all) :
    ∀ x ∈ inputs.zip all, RegionFor x.1 x.2 := by
  intro x hx
  exact (List.forall₂_iff_zip.mp h).2 hx

/-- The ranges of a finished loop are writes that fit and do not meet. -/
theorem Collected.separate {inputs : List Bytes} {all : List Range}
    {left : Store T} (h : Collected all left)
    (hregions : List.Forall₂ RegionFor inputs all) :
    Separate ((inputs.zip all).map writeOf) left.memory.length := by
  have hwithin : ∀ x ∈ inputs.zip all, ∀ a,
      Within (writeOf x).1 (writeOf x).2.length a ↔ x.2.Holds a := by
    intro x hx a
    show x.2.start ≤ a ∧ a < x.2.start + x.1.length ↔ _
    rw [← (writes_length hregions x hx).stop_eq]
    rfl
  constructor
  · intro w hw
    obtain ⟨x, hx, rfl⟩ := List.mem_map.mp hw
    show x.2.start + x.1.length ≤ _
    rw [← (writes_length hregions x hx).stop_eq]
    exact h.inside x.2 (List.of_mem_zip hx).2
  · have hzip : (inputs.zip all).Pairwise fun x y => x.2.Apart y.2 := by
      have hsnd : (inputs.zip all).map Prod.snd = all :=
        List.map_snd_zip (by rw [hregions.length_eq])
      have hapart := h.apart
      rw [← hsnd, List.pairwise_map] at hapart
      exact hapart
    rw [List.pairwise_map]
    refine hzip.imp_of_mem ?_
    intro x y hx hy hxy a hboth
    exact hxy a ⟨(hwithin x hx a).mp hboth.1, (hwithin y hy a).mp hboth.2⟩

/-! ## The call -/

theorem runGuest_eq (version : WasmVersion) (inputs : Vector Bytes 4)
    (store : Store T) :
    runGuest C version inputs store
      = guestCall C version inputs store >>= readAnswer C version := by
  unfold runGuest guestCall
  simp only [bind_assoc, pure_bind]
  rfl

theorem evaluate_eq_call (version : WasmVersion)
    (module program parameters : Bytes) (input : SigningInput)
    (witness : Bytes) :
    evaluate C version module program parameters input witness
      = evaluationCall C version module program parameters input witness
        >>= readAnswer C version := by
  unfold evaluate evaluationCall
  simp only [bind_assoc, runGuest_eq]
  split
  · rfl
  · simp only [bind_assoc]

/-- The guest is called with exactly these inputs: `left` is the store as the
allocator left it, `called` the one of the call. -/
structure Sees (inputs : Vector Bytes 4) (regions : Vector Range 4)
    (left called : Store T) (args : Vector Int32 8) : Prop where
  region : ∀ i : Fin 4, RegionFor inputs[i] regions[i]
  inside : ∀ i : Fin 4, regions[i].stop ≤ called.memory.length
  apart : ∀ i j : Fin 4, i ≠ j → regions[i].Apart regions[j]
  pointer : ∀ i : Fin 4,
    (args.get ⟨2 * i, by omega⟩).toUInt32.toNat = regions[i].start
  length : ∀ i : Fin 4,
    (args.get ⟨2 * i + 1, by omega⟩).toUInt32.toNat = inputs[i].length
  contents : ∀ i : Fin 4,
    (called.memory.drop regions[i].start).take inputs[i].length = inputs[i]
  size : called.memory.length = left.memory.length
  frame : ∀ a, (∀ i : Fin 4, ¬ regions[i].Holds a) →
    called.memory[a]? = left.memory[a]?
  guest : called.guest = left.guest

theorem asI32_toNat {n : Nat} (h : n < 2 ^ 32) :
    (asI32 n).toUInt32.toNat = n := by
  rw [asI32, Int32.toUInt32_ofNat', UInt32.toNat_ofNat_of_lt' h]

theorem arguments_pointer (inputs : Vector Bytes 4) (ranges : List Range)
    (i : Fin 4) :
    (evaluationArguments inputs ranges).get ⟨2 * i, by omega⟩
      = asI32 ((ranges[i.val]?.map Range.start).getD 0) := by
  match i with
  | 0 => rfl
  | 1 => rfl
  | 2 => rfl
  | 3 => rfl

theorem arguments_length (inputs : Vector Bytes 4) (ranges : List Range)
    (i : Fin 4) :
    (evaluationArguments inputs ranges).get ⟨2 * i + 1, by omega⟩
      = asI32 inputs[i].length := by
  match i with
  | 0 => rfl
  | 1 => rfl
  | 2 => rfl
  | 3 => rfl

/-- A loop that went through is followed by copies that succeed, and the
guest is then called with its inputs in place. -/
theorem Allocations.sees (hgrow : NeverShrinks C) {inputs : Vector Bytes 4}
    {store left : Store T} {all : List Range}
    (hlen : ∀ bytes ∈ inputs.toList, bytes.length ≤ maxSignedViewBytes)
    (h : Allocations C [] store inputs.toList all left) :
    ∃ (regions : Vector Range 4) (called : Store T), regions.toList = all ∧
      copyAll (inputs.toList.zip all) left = .ok called ∧
      Sees inputs regions left called (evaluationArguments inputs all) := by
  have hmax : maxSignedViewBytes = 1048576 := rfl
  have hstart : Collected [] store :=
    ⟨fun _ hmem => absurd hmem List.not_mem_nil, .nil⟩
  obtain ⟨hcollected, new, hnew, hregions⟩ := h.collected hgrow hstart
  rw [List.nil_append] at hnew
  subst hnew
  have hcount : all.length = 4 := by
    rw [← hregions.length_eq, Vector.length_toList]
  have hseparate := hcollected.separate hregions
  have hzip : (inputs.toList.zip all).length = 4 := by
    rw [List.length_zip, Vector.length_toList, hcount, Nat.min_self]
  have hregionAt : ∀ i : Fin 4,
      RegionFor inputs[i] (all.get ⟨i, by omega⟩) := by
    intro i
    have hi : i.val < inputs.toList.length := by
      rw [Vector.length_toList]
      exact i.isLt
    exact hregions.get hi (by omega)
  have hmem : ∀ i : Fin 4, (all.get ⟨i, by omega⟩) ∈ all :=
    fun i => List.get_mem all _
  have hwrite : ∀ i : Fin 4, writeOf (inputs[i], all.get ⟨i, by omega⟩)
      ∈ (inputs.toList.zip all).map writeOf := by
    intro i
    refine List.mem_map_of_mem (List.mem_iff_get.mpr ⟨⟨i, by omega⟩, ?_⟩)
    rw [List.get_eq_getElem, List.getElem_zip]
    rfl
  have hlength := length_overwriteAll hseparate.fits
  refine ⟨⟨all.toArray, hcount⟩, _, rfl, copyAll_eq hseparate.fits, ?_⟩
  exact
    { region := hregionAt
      inside := by
        intro i
        rw [hlength]
        exact hcollected.inside _ (hmem i)
      apart := by
        intro i j hne
        have hpairs := List.pairwise_iff_getElem.mp hcollected.apart
        rcases Nat.lt_or_gt_of_ne (Fin.val_ne_of_ne hne) with hlt | hgt
        · exact hpairs i j _ _ hlt
        · exact (hpairs j i _ _ hgt).symm
      pointer := by
        intro i
        rw [arguments_pointer, List.getElem?_eq_getElem (by omega)]
        exact asI32_toNat (hregionAt i).start_lt
      length := by
        intro i
        have hi := hlen inputs[i] (Vector.mem_toList_iff.mpr
          (Vector.getElem_mem i.isLt))
        rw [arguments_length]
        exact asI32_toNat (by omega)
      contents := fun i => read_overwriteAll hseparate (hwrite i)
      size := hlength
      frame := by
        intro a hout
        refine getElem?_overwriteAll_outside hseparate.fits ?_
        intro w hw hin
        obtain ⟨x, hx, rfl⟩ := List.mem_map.mp hw
        obtain ⟨k, hk⟩ := List.mem_iff_get.mp hx
        have hk4 : k.val < 4 := Nat.lt_of_lt_of_eq k.isLt hzip
        refine hout ⟨k, hk4⟩ ?_
        have hsnd : all.get ⟨k, by omega⟩ = x.2 := by
          rw [← hk, List.get_eq_getElem, List.get_eq_getElem,
            List.getElem_zip]
        show (all.get ⟨k, by omega⟩).Holds a
        rw [hsnd]
        refine ⟨hin.1, ?_⟩
        rw [(writes_length hregions x hx).stop_eq]
        exact hin.2
      guest := rfl }

/-- The lengths `evaluate` has checked before it instantiates. -/
structure WithinLimits (program parameters view witness : Bytes) : Prop where
  program : program.length ≤ maxProgramBytes
  parameters : parameters.length ≤ maxParameterBytes
  view : view.length ≤ maxSignedViewBytes
  witness : witness.length ≤ maxWitnessBytes

theorem WithinLimits.bounded {program parameters view witness : Bytes}
    (h : WithinLimits program parameters view witness) :
    ∀ bytes ∈ [program, parameters, view, witness],
      bytes.length ≤ maxSignedViewBytes := by
  have hargument : maxProgramBytes ≤ maxSignedViewBytes := by decide
  have hprogram := Nat.le_trans h.program hargument
  have hparameters := Nat.le_trans h.parameters hargument
  have hwitness := Nat.le_trans h.witness hargument
  intro bytes hmem
  simp only [List.mem_cons, List.not_mem_nil, or_false] at hmem
  rcases hmem with rfl | rfl | rfl | rfl
  · exact hprogram
  · exact hparameters
  · exact h.view
  · exact hwitness

theorem length_le_of_encodeView {version : WasmVersion} {input : SigningInput}
    {view : Bytes} (h : encodeView version input = .ok view) :
    view.length ≤ maxSignedViewBytes := by
  obtain ⟨prevouts, tail, _, _, _, henc⟩ := encodeView_ok h
  rw [henc.length_eq]
  exact henc.bounded

/-- What `evaluate` has passed when it reaches the call. -/
theorem evaluationCall_ok {version : WasmVersion}
    {module program parameters witness : Bytes} {input : SigningInput}
    {call : Store T × Vector Int32 8}
    (h : evaluationCall C version module program parameters input witness
      = .ok call) :
    ∃ view store, encodeView version input = .ok view ∧
      C.instantiate version module = .ok store ∧
      WithinLimits program parameters view witness ∧
      guestCall C version #v[program, parameters, view, witness] store
        = .ok call := by
  obtain ⟨_, -, h⟩ := bind_ok h
  obtain ⟨_, -, h⟩ := bind_ok h
  split at h
  · cases h
  · next hlimits =>
      obtain ⟨view, hview, h⟩ := bind_ok h
      obtain ⟨store, hstore, h⟩ := bind_ok h
      refine ⟨view, store, hview, decoded_ok_iff.mp hstore, ?_, h⟩
      rw [not_or, not_or] at hlimits
      exact ⟨Nat.le_of_not_lt hlimits.1, Nat.le_of_not_lt hlimits.2.1,
        length_le_of_encodeView hview, Nat.le_of_not_lt hlimits.2.2⟩

/-- Whatever the guest's allocator does short of shrinking its memory: when
`evaluate` reaches the guest's `evaluate`, the guest is called with exactly
the four inputs; and a run refuses before anything is copied exactly at a
trap, a region outside the memory or a region that meets an earlier one, and
otherwise reaches the call. -/
theorem guest_sees_inputs {T : Types} (C : Crates T) (hgrow : NeverShrinks C)
    (version : WasmVersion) :
    (∀ module program parameters input witness,
      evaluate C version module program parameters input witness
        = evaluationCall C version module program parameters input witness
          >>= readAnswer C version) ∧
    (∀ module program parameters input witness called args,
      evaluationCall C version module program parameters input witness
        = .ok (called, args) →
      ∃ view store left, ∃ regions : Vector Range 4,
        encodeView version input = .ok view ∧
        C.instantiate version module = .ok store ∧
        Allocations C [] store [program, parameters, view, witness]
          regions.toList left ∧
        Sees #v[program, parameters, view, witness] regions left called
          args) ∧
    (∀ program parameters view witness store,
      WithinLimits program parameters view witness →
      ((∃ fault, allocateAll C version [program, parameters, view, witness] []
          store = .error fault) ↔
        Refused C [] store [program, parameters, view, witness]) ∧
      (¬ Refused C [] store [program, parameters, view, witness] →
        ∃ call, guestCall C version #v[program, parameters, view, witness]
          store = .ok call)) := by
  refine ⟨fun _ _ _ _ _ => evaluate_eq_call version _ _ _ _ _, ?_, ?_⟩
  · intro module program parameters input witness called args h
    obtain ⟨view, store, hview, hstore, hlimits, h⟩ := evaluationCall_ok h
    obtain ⟨⟨all, left⟩, hloop, h⟩ := bind_ok h
    have hruns := allocations_of_ok hlimits.bounded hloop
    obtain ⟨regions, called', rfl, hcopy, hsees⟩ :=
      @Allocations.sees T C hgrow #v[program, parameters, view, witness] store
        left all hlimits.bounded hruns
    refine ⟨view, store, left, regions, hview, hstore, hruns, ?_⟩
    obtain ⟨store', hcopy', h⟩ := bind_ok h
    rw [hcopy] at hcopy'
    injection hcopy' with hcopy'
    injection h with h
    injection h with hcalled hargs
    rw [← hcalled, ← hargs, ← hcopy']
    exact hsees
  · intro program parameters view witness store hlimits
    have hiff := @allocateAll_error_iff T C version
      [program, parameters, view, witness] [] store hlimits.bounded
    refine ⟨hiff, ?_⟩
    intro hnot
    cases hloop : allocateAll C version
        [program, parameters, view, witness] [] store with
    | error fault => exact absurd (hiff.mp ⟨fault, hloop⟩) hnot
    | ok result =>
        obtain ⟨all, left⟩ := result
        obtain ⟨regions, called, rfl, hcopy, -⟩ :=
          @Allocations.sees T C hgrow #v[program, parameters, view, witness]
            store left all hlimits.bounded
            (allocations_of_ok hlimits.bounded hloop)
        refine ⟨(called, evaluationArguments
          #v[program, parameters, view, witness] regions.toList), ?_⟩
        unfold guestCall
        show (allocateAll C version [program, parameters, view, witness] []
          store >>= _) = _
        rw [hloop, ok_bind]
        simp only [hcopy, ok_bind]
        rfl

theorem exists_ok_of_toBool {ε α : Type} {x : Except ε α}
    (h : x.toBool = true) : ∃ a, x = .ok a := by
  cases x with
  | error e => cases h
  | ok a => exact ⟨a, rfl⟩

/-- An allocator that answers the end of its memory and grows it. -/
def growingCrates : Crates symbolicTypes :=
  { symbolicCrates with
    instantiate := fun _ _ => .ok ⟨[7, 7], ()⟩
    allocate := fun store size =>
      (.ok (Int32.ofNat store.memory.length),
        ⟨store.memory ++ List.replicate size.toNatClampNeg 0, ()⟩)
    evaluate := fun store _ => (.ok 1, store) }

theorem growingCrates_neverShrinks : NeverShrinks growingCrates := by
  intro store size
  show store.memory.length
    ≤ (store.memory ++ List.replicate size.toNatClampNeg 0).length
  rw [List.length_append]
  omega

theorem guest_sees_inputs_growing :
    ∃ called args,
      evaluationCall growingCrates .v1 [0, 97, 115, 109, 1, 0, 0, 0] [] [5, 6]
        oneInputSpend [9] = .ok (called, args) ∧
      ∃ view store left, ∃ regions : Vector Range 4,
        encodeView .v1 oneInputSpend = .ok view ∧
        growingCrates.instantiate .v1 [0, 97, 115, 109, 1, 0, 0, 0]
          = .ok store ∧
        Allocations growingCrates [] store [[], [5, 6], view, [9]]
          regions.toList left ∧
        Sees #v[[], [5, 6], view, [9]] regions left called args := by
  have hreached : (evaluationCall growingCrates .v1
      [0, 97, 115, 109, 1, 0, 0, 0] [] [5, 6] oneInputSpend [9]).toBool
        = true := by decide +kernel
  obtain ⟨⟨called, args⟩, hcall⟩ := exists_ok_of_toBool hreached
  exact ⟨called, args, hcall,
    (guest_sees_inputs growingCrates growingCrates_neverShrinks .v1).2.1 _ _ _ _
      _ _ _ hcall⟩

end SapioTee
