import Mathlib.Data.List.AList

/-!
# Keyed tables with pruning

Mathlib's association lists give a finite map with unique keys, `lookup`,
`insert` and `erase`. A session table also drops every entry that fails a
test, in one pass, and counts the entries that pass one. Those two are added
here with the lemmas that say what each operation does to `lookup` and to
the list of entries.
-/

namespace SapioTee.Lib

/-- A finite map from `K` to `V`. -/
abbrev Table (K V : Type) := AList (fun _ : K => V)

namespace Table

variable {K V : Type}

/-- Keep the entries whose value passes the test. -/
def retain (p : V → Bool) (m : Table K V) : Table K V :=
  ⟨m.entries.filter fun e => p e.2, m.nodupKeys.sublist List.filter_sublist⟩

/-- The number of entries. -/
def size (m : Table K V) : Nat := m.entries.length

/-- The number of entries whose value passes the test. -/
def count (p : V → Bool) (m : Table K V) : Nat :=
  m.entries.countP fun e => p e.2

theorem entries_retain (p : V → Bool) (m : Table K V) :
    (m.retain p).entries = m.entries.filter fun e => p e.2 := rfl

theorem size_retain_le (p : V → Bool) (m : Table K V) :
    (m.retain p).size ≤ m.size := List.length_filter_le _ _

theorem count_retain_le (p q : V → Bool) (m : Table K V) :
    (m.retain p).count q ≤ m.count q :=
  List.filter_sublist.countP_le

variable [DecidableEq K]

theorem entries_erase (k : K) (m : Table K V) :
    (m.erase k).entries = m.entries.filter fun e => !decide (e.1 = k) := by
  show m.entries.kerase k = _
  have hnd := m.nodupKeys
  generalize m.entries = l at hnd
  induction l with
  | nil => rfl
  | cons e l ih =>
      have htail := List.nodupKeys_of_nodupKeys_cons hnd
      by_cases h : k = e.1
      · have hnot : ∀ x ∈ l, (!decide (x.1 = k)) = true := by
          intro x hx
          have hmem := List.notMem_keys_of_nodupKeys_cons hnd
          have hne : x.1 ≠ k := by
            intro hk
            exact hmem (by rw [← h, ← hk]; exact List.mem_keys_of_mem hx)
          simp only [hne, decide_false, Bool.not_false]
        rw [List.kerase_cons_eq h, List.filter_cons_of_neg (by simp [h]),
          List.filter_eq_self.mpr hnot]
      · rw [List.kerase_cons_ne h, ih htail,
          List.filter_cons_of_pos (by simp [Ne.symm h])]

theorem size_erase_le (k : K) (m : Table K V) : size (m.erase k) ≤ m.size := by
  rw [size, entries_erase]
  exact List.length_filter_le _ _

theorem count_erase_le (p : V → Bool) (k : K) (m : Table K V) :
    count p (m.erase k) ≤ m.count p := by
  rw [count, entries_erase]
  exact List.filter_sublist.countP_le

theorem lookup_eq_some_iff {k : K} {v : V} {m : Table K V} :
    m.lookup k = some v ↔ ⟨k, v⟩ ∈ m.entries := AList.mem_lookup_iff

theorem lookup_retain (p : V → Bool) (k : K) (m : Table K V) :
    (m.retain p).lookup k = (m.lookup k).filter p := by
  apply Option.ext
  intro v
  rw [Option.filter_eq_some_iff, lookup_eq_some_iff, lookup_eq_some_iff,
    entries_retain, List.mem_filter]

theorem size_insert {k : K} {v : V} {m : Table K V} (h : k ∉ m) :
    size (m.insert k v) = m.size + 1 := by
  rw [size, AList.entries_insert_of_notMem h]
  rfl

theorem count_insert {p : V → Bool} {k : K} {v : V} {m : Table K V}
    (h : k ∉ m) :
    count p (m.insert k v) = m.count p + if p v then 1 else 0 := by
  rw [count, AList.entries_insert_of_notMem h, List.countP_cons]
  rfl

end Table

end SapioTee.Lib
