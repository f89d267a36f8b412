import Dilithion.Lib.WriteBatch

/-! A cache of bounded size that drops the oldest entry. It retains what was touched among the last few updates. -/

namespace Dilithion.Lib.LruCache

open List AList

variable {K V : Type}

def evict (table : Table K V) : Table K V :=
  ⟨table.entries.dropLast, table.nodupKeys.sublist (List.dropLast_sublist _)⟩

variable [DecidableEq K]

def update (capacity : Nat) (key : K) (value : V) (table : Table K V) : Table K V :=
  if (table.lookup key).isSome then table.insert key value
  else if capacity ≤ table.entries.length then (evict table).insert key value
  else table.insert key value

variable {table : Table K V} {key : K} {value : V}

lemma lookup_evict (found : (evict table).lookup key = some value) : table.lookup key = some value := by
  have kept := mem_lookup_iff.mp (Option.mem_def.mpr found)
  exact mem_lookup_iff.mpr ((dropLast_sublist _).subset kept)

@[simp] lemma lookup_update_self (capacity : Nat) (key : K) (value : V) (table : Table K V) :
    (update capacity key value table).lookup key = some value := by
  unfold update
  split
  · exact lookup_insert _
  · split <;> exact lookup_insert _

lemma lookup_update_ne {capacity : Nat} {other : K} {found : V}
    (different : other ≠ key) (hit : (update capacity key value table).lookup other = some found) :
    table.lookup other = some found := by
  unfold update at hit
  split at hit
  · rwa [lookup_insert_ne different] at hit
  · split at hit
    · rw [lookup_insert_ne different] at hit
      exact lookup_evict hit
    · rwa [lookup_insert_ne different] at hit

def Retains (count : Nat) (kept : K → V → Prop) (table : Table K V) : Prop :=
  ∃ recent older, table.entries = recent ++ older ∧ recent.length ≤ count ∧
    ∀ key value, kept key value → ⟨key, value⟩ ∈ recent

omit [DecidableEq K] in
lemma Retains.nothing (table : Table K V) : Retains 0 (fun _ _ => False) table :=
  ⟨[], table.entries, rfl, Nat.le_refl 0, fun _ _ impossible => impossible.elim⟩

variable {count : Nat} {kept : K → V → Prop}

lemma Retains.lookup
    (retained : Retains count kept table) (member : kept key value) : table.lookup key = some value := by
  obtain ⟨recent, older, split, -, here⟩ := retained
  apply mem_lookup_iff.mpr
  rw [split]
  exact mem_append_left older (here key value member)

omit [DecidableEq K] in
lemma Retains.mono {count' : Nat} {kept kept' : K → V → Prop}
    (retained : Retains count kept table) (bound : count ≤ count')
    (fewer : ∀ key value, kept' key value → kept key value) : Retains count' kept' table := by
  obtain ⟨recent, older, split, short, here⟩ := retained
  exact ⟨recent, older, split, by omega, fun key value member => here key value (fewer key value member)⟩

lemma Retains.erase (retained : Retains count kept table) (key : K) :
    Retains count (fun other value => other ≠ key ∧ kept other value) (table.erase key) := by
  obtain ⟨recent, older, split, short, here⟩ := retained
  have erased : (table.erase key).entries = (recent ++ older).kerase key := by rw [← split]; rfl
  by_cases inRecent : ∃ entry ∈ recent, key = entry.1
  · obtain ⟨entry, member, same⟩ := inRecent
    refine ⟨recent.kerase key, older, ?_, ?_, ?_⟩
    · rw [erased]
      exact eraseP_append_left (p := fun found => decide (key = found.1)) (decide_eq_true same) older member
    · exact Nat.le_trans (length_eraseP_le) short
    · intro other value member
      exact (mem_eraseP_of_neg (by simpa using Ne.symm member.1)).mpr (here other value member.2)
  · refine ⟨recent, older.kerase key, ?_, short, fun other value member => here other value member.2⟩
    rw [erased]
    exact eraseP_append_right _ (fun entry member holds => inRecent ⟨entry, member, of_decide_eq_true holds⟩)

lemma Retains.insert (retained : Retains count kept table) (key : K) (value : V) :
    Retains (count + 1) (fun other found => (other = key ∧ found = value) ∨ (other ≠ key ∧ kept other found))
      (table.insert key value) := by
  obtain ⟨recent, older, split, short, here⟩ := retained.erase key
  refine ⟨⟨key, value⟩ :: recent, older, ?_, by simpa using short, ?_⟩
  · rw [cons_append, ← split]
    rfl
  · rintro other found (⟨rfl, rfl⟩ | member)
    · exact mem_cons_self
    · exact mem_cons_of_mem _ (here other found member)

omit [DecidableEq K] in
lemma Retains.evict (retained : Retains count kept table) (full : count < table.entries.length) :
    Retains count kept (LruCache.evict table) := by
  obtain ⟨recent, older, split, short, here⟩ := retained
  refine ⟨recent, older.dropLast, ?_, short, here⟩
  have nonempty : older ≠ [] := by
    rintro rfl
    rw [split, append_nil] at full
    omega
  show table.entries.dropLast = recent ++ older.dropLast
  rw [split, dropLast_append_of_ne_nil nonempty]

/-- A write keeps every recent entry when fewer than `capacity` writes count as recent. -/
lemma Retains.update {capacity : Nat}
    (retained : Retains count kept table) (room : count < capacity) (key : K) (value : V) :
    Retains (count + 1) (fun other found => (other = key ∧ found = value) ∨ (other ≠ key ∧ kept other found))
      (LruCache.update capacity key value table) := by
  unfold LruCache.update
  split
  · exact retained.insert key value
  · split
    · exact (retained.evict (by omega)).insert key value
    · exact retained.insert key value

end Dilithion.Lib.LruCache
