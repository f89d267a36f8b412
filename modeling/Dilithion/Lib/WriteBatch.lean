import Mathlib

/-! Batches of writes to a table. Of the writes to one key only the last counts. -/

namespace Dilithion.Lib

open List

/-- A finite table; the entries are kept in the order of their last insertion, newest first. -/
abbrev Table (K V : Type) := AList (fun _ : K => V)

namespace WriteBatch

inductive Op (K V : Type) where
  | put (key : K) (value : V)
  | delete (key : K)
  deriving DecidableEq, Repr

variable {K V : Type}

def Op.key : Op K V → K
  | .put key _ => key
  | .delete key => key

def Op.effect : Op K V → Option V
  | .put _ value => some value
  | .delete _ => none

variable [DecidableEq K]

def Op.apply (op : Op K V) (table : Table K V) : Table K V :=
  match op with
  | .put key value => table.insert key value
  | .delete key => table.erase key

variable (batch : List (Op K V))

def write (table : Table K V) : Table K V :=
  batch.foldl (fun now op => op.apply now) table

variable (table : Table K V)

@[simp] lemma write_nil : write [] table = table := rfl

@[simp] lemma write_cons (op : Op K V) (batch : List (Op K V)) (table : Table K V) :
    write (op :: batch) table = write batch (op.apply table) := rfl

lemma write_append (first second : List (Op K V)) (table : Table K V) :
    write (first ++ second) table = write second (write first table) := by
  simp [write]

lemma lookup_apply (op : Op K V) (table : Table K V) (key : K) :
    (op.apply table).lookup key = if op.key = key then op.effect else table.lookup key := by
  cases op with
  | put at_ value =>
    by_cases same : at_ = key
    · subst same
      simp [Op.apply, Op.key, Op.effect]
    · simp [Op.apply, Op.key, same, AList.lookup_insert_ne (Ne.symm same)]
  | delete at_ =>
    by_cases same : at_ = key
    · subst same
      simp [Op.apply, Op.key, Op.effect]
    · simp [Op.apply, Op.key, same, AList.lookup_erase_ne (Ne.symm same)]

lemma lookup_write_concat (op : Op K V) (table : Table K V) (key : K) : (write (batch ++ [op]) table).lookup key =
    if op.key = key then op.effect else (write batch table).lookup key := by
  rw [write_append, write_cons, write_nil, lookup_apply]

variable {batch : List (Op K V)} {key : K}

/-- What is found was put there by the batch or was there before. -/
lemma put_mem_of_lookup_write {table : Table K V} {value : V}
    (found : (write batch table).lookup key = some value) : .put key value ∈ batch ∨ table.lookup key = some value := by
  induction batch generalizing table with
  | nil => exact .inr found
  | cons op rest ih =>
    rcases ih found with later | before
    · exact .inl (mem_cons_of_mem _ later)
    · rw [lookup_apply] at before
      split at before
      · rename_i here
        cases op with
        | put at_ put_ =>
          cases here
          cases before
          exact .inl mem_cons_self
        | delete at_ => cases before
      · exact .inr before

lemma lookup_write_of_untouched (untouched : ∀ op ∈ batch, op.key ≠ key)
    (table : Table K V) : (write batch table).lookup key = table.lookup key := by
  induction batch generalizing table with
  | nil => rfl
  | cons op batch ih =>
    rw [write_cons, ih (fun other member => untouched other (mem_cons_of_mem _ member)), lookup_apply,
      if_neg (untouched op mem_cons_self)]

lemma lookup_write_congr {table other : Table K V} (same : table.lookup key = other.lookup key) :
    (write batch table).lookup key = (write batch other).lookup key := by
  induction batch generalizing table other with
  | nil => exact same
  | cons op batch ih =>
    refine ih ?_
    rw [lookup_apply, lookup_apply, same]

section

variable {A B : Type} [DecidableEq A] {encodeKey : A → K}

section

variable (injective : Function.Injective encodeKey)

include injective

/-- With one operation for each entry of a table, the key of an entry ends up with the effect of its operation. -/
lemma lookup_write_entries {make : (Sigma fun _ : A => B) → Op K V}
    (keyed : ∀ entry, (make entry).key = encodeKey entry.1) (pending : Table A B) (table : Table K V) (key : A) :
    (write (pending.entries.map make) table).lookup (encodeKey key) =
      ((pending.lookup key).map fun item => (make ⟨key, item⟩).effect).getD (table.lookup (encodeKey key)) := by
  have onEntries : ∀ (entries : List (Sigma fun _ : A => B)) (table : Table K V), entries.NodupKeys →
      (write (entries.map make) table).lookup (encodeKey key) =
        ((entries.dlookup key).map fun item => (make ⟨key, item⟩).effect).getD (table.lookup (encodeKey key)) := by
    intro entries
    induction entries with
    | nil => intro table _; rfl
    | cons entry rest ih =>
      obtain ⟨at_, item⟩ := entry
      intro table nodup
      obtain ⟨fresh, nodupRest⟩ := nodupKeys_cons.mp nodup
      rw [map_cons, write_cons, ih _ nodupRest, lookup_apply, keyed]
      by_cases here : key = at_
      · subst here
        have absent : rest.dlookup key = none := dlookup_eq_none.mpr fresh
        simp [absent]
      · have other : encodeKey at_ ≠ encodeKey key := fun same => here (injective same).symm
        rw [dlookup_cons_ne _ _ here, if_neg other]
  exact onEntries pending.entries table pending.nodupKeys

lemma lookup_write_puts (encode : B → V) (pending : Table A B) (table : Table K V) (key : A) :
    (write (pending.entries.map fun entry => Op.put (encodeKey entry.1) (encode entry.2)) table).lookup
        (encodeKey key) =
      ((pending.lookup key).map encode).or (table.lookup (encodeKey key)) := by
  rw [lookup_write_entries injective fun _ => rfl]
  cases pending.lookup key <;> rfl

lemma lookup_write_deletes (pending : Table A B) (table : Table K V) (key : A) :
    (write (pending.entries.map fun entry => Op.delete (encodeKey entry.1)) table).lookup (encodeKey key) =
      if (pending.lookup key).isSome then none else table.lookup (encodeKey key) := by
  rw [lookup_write_entries injective fun _ => rfl]
  cases pending.lookup key <;> rfl

end

end

end WriteBatch

end Dilithion.Lib
