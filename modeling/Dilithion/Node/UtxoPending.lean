import Dilithion.Node.UtxoMirror

/-! Pending additions and deletions. `AddUTXO` and `SpendUTXO` record a change without writing it; a set
with pending changes stands for the ledger that a flush would leave in the database. A block writes past
the pending changes, which shows only if it names an outpoint that has one: otherwise the call does to
the set what it does to the flushed set. -/

namespace Dilithion.CUTXOSet

open Lib Lib.WriteBatch Lib.Ledger Option AList Function

def addUTXO (env : Env) (s : CUTXOSet) (outpoint : COutPoint) (out : CTxOut) (height : UInt32) (fCoinBase : Bool) :
    Bool × CUTXOSet :=
  if ¬ s.isOpen then (false, s)
  else
    let entry : CUTXOEntry := ⟨out, height, fCoinBase⟩
    let pending := { s with
      cacheAdditions := s.cacheAdditions.insert outpoint entry
      cacheDeletions := s.cacheDeletions.erase outpoint }
    (true, { pending.updateCache env outpoint entry with stats := s.stats.add out.nValue })

-- A pending deletion is not looked at, so an outpoint that is still in the database can be spent again.
def spendUTXO (s : CUTXOSet) (outpoint : COutPoint) : Bool × CUTXOSet :=
  if ¬ s.isOpen then (false, s)
  else match (s.cacheAdditions.lookup outpoint).or ((s.cache.lookup outpoint).or (s.stored outpoint)) with
    | none => (false, s)
    | some entry => (true, { s.removeFromCache outpoint with
        cacheAdditions := s.cacheAdditions.erase outpoint
        cacheDeletions := s.cacheDeletions.insert outpoint true
        stats := s.stats.subtract entry.out.nValue })

def held (s : CUTXOSet) : UTXOLedger := fun outpoint =>
  if (s.cacheDeletions.lookup outpoint).isSome then none
  else (s.cacheAdditions.lookup outpoint).or (s.stored outpoint)

structure Consistent (s : CUTXOSet) : Prop where
  isOpen : s.isOpen = true
  short : ∀ outpoint entry, s.cacheAdditions.lookup outpoint = some entry → entry.Short
  cached : ∀ outpoint entry, s.cache.lookup outpoint = some entry → s.held outpoint = some entry

def Unpending (s : CUTXOSet) (outpoint : COutPoint) : Prop :=
  s.cacheAdditions.lookup outpoint = none ∧ s.cacheDeletions.lookup outpoint = none

instance (s : CUTXOSet) (outpoint : COutPoint) : Decidable (s.Unpending outpoint) :=
  inferInstanceAs (Decidable (_ ∧ _))

variable {s : CUTXOSet} {outpoint : COutPoint}

lemma held_of_unpending (unpending : s.Unpending outpoint) : s.held outpoint = s.stored outpoint := by
  simp [held, unpending.1, unpending.2]

lemma Coherent.held_eq (coherent : s.Coherent) : s.held = s.stored := by
  funext outpoint
  exact held_of_unpending ⟨by simp [coherent.additions], by simp [coherent.deletions]⟩

lemma Coherent.consistent (coherent : s.Coherent) : s.Consistent where
  isOpen := coherent.isOpen
  short := by simp [coherent.additions]
  cached := by
    rw [coherent.held_eq]
    exact coherent.cached

section

variable (consistent : s.Consistent)

include consistent

lemma Consistent.view_eq {env : Env} : s.view env = s.held := by
  funext outpoint
  simp only [view, getUTXO, consistent.isOpen, not_true_eq_false, if_false]
  by_cases deleted : (s.cacheDeletions.lookup outpoint).isSome = true
  · simp [held, deleted]
  · rw [if_neg deleted]
    cases added : s.cacheAdditions.lookup outpoint with
    | some entry => simp [held, deleted, added]
    | none =>
      cases hit : s.cache.lookup outpoint with
      | some entry => exact (consistent.cached outpoint entry hit).symm
      | none =>
        have direct : s.held outpoint = s.stored outpoint := by simp [held, deleted, added]
        rw [direct]
        cases s.stored outpoint <;> rfl

lemma Consistent.updateCache (env : Env)
    {entry : CUTXOEntry} (present : s.held outpoint = some entry) : (s.updateCache env outpoint entry).Consistent where
  isOpen := consistent.isOpen
  short := consistent.short
  cached := by
    intro other found hit
    by_cases here : other = outpoint
    · subst here
      have same : entry = found := by simpa [CUTXOSet.updateCache] using hit
      exact same ▸ present
    · exact consistent.cached other found (LruCache.lookup_update_ne here hit)

lemma Consistent.getUTXO (env : Env) (outpoint : COutPoint) :
    (s.getUTXO env outpoint).2.Consistent ∧ ∃ cache, (s.getUTXO env outpoint).2 = { s with cache } := by
  cases answer : s.getUTXO env outpoint with
  | mk result set =>
    cases result with
    | none => rw [getUTXO_missing answer]; exact ⟨consistent, s.cache, rfl⟩
    | some entry =>
      have read : s.view env = s.held := consistent.view_eq
      have present : s.held outpoint = some entry := by
        rw [← read, view, answer]
      rcases getUTXO_loads answer with rfl | rfl
      · exact ⟨consistent, set.cache, rfl⟩
      · exact ⟨consistent.updateCache env present, _, rfl⟩

lemma Consistent.addUTXO (env : Env) (outpoint : COutPoint)
    {out : CTxOut} {height : UInt32} {fCoinBase : Bool} (short : (CUTXOEntry.mk out height fCoinBase).Short) :
    (s.addUTXO env outpoint out height fCoinBase).2.Consistent ∧ (s.addUTXO env outpoint out height fCoinBase).2.held =
        update s.held outpoint (some ⟨out, height, fCoinBase⟩) := by
  have held : (s.addUTXO env outpoint out height fCoinBase).2.held =
      update s.held outpoint (some ⟨out, height, fCoinBase⟩) := by
    funext other
    by_cases here : other = outpoint
    · subst here
      simp [CUTXOSet.addUTXO, consistent.isOpen, CUTXOSet.held, CUTXOSet.updateCache]
    · rw [update_of_ne here]
      simp [CUTXOSet.addUTXO, consistent.isOpen, CUTXOSet.held, CUTXOSet.updateCache,
        lookup_erase_ne here, lookup_insert_ne here]
      rfl
  refine ⟨⟨?_, ?_, ?_⟩, held⟩
  · simp [CUTXOSet.addUTXO, consistent.isOpen, CUTXOSet.updateCache]
  · intro other entry found
    by_cases here : other = outpoint
    · subst here
      have same : CUTXOEntry.mk out height fCoinBase = entry := by
        simpa [CUTXOSet.addUTXO, consistent.isOpen, CUTXOSet.updateCache] using found
      exact same ▸ short
    · refine consistent.short other entry ?_
      simpa [CUTXOSet.addUTXO, consistent.isOpen, CUTXOSet.updateCache, lookup_insert_ne here] using found
  · intro other entry hit
    rw [held]
    simp only [CUTXOSet.addUTXO, consistent.isOpen, not_true_eq_false, if_false, CUTXOSet.updateCache] at hit
    by_cases here : other = outpoint
    · subst here
      simpa using hit
    · rw [update_of_ne here]
      exact consistent.cached other entry (LruCache.lookup_update_ne here hit)

/-- Spending leaves the outpoint empty, whether or not it was found. -/
lemma Consistent.spendUTXO (outpoint : COutPoint) :
    (s.spendUTXO outpoint).2.Consistent ∧ (s.spendUTXO outpoint).2.held = update s.held outpoint none := by
  unfold CUTXOSet.spendUTXO
  rw [if_neg (by simp [consistent.isOpen])]
  split
  · rename_i missing
    have absent : s.held outpoint = none := by
      simp only [or_eq_none_iff] at missing
      simp [CUTXOSet.held, missing.1, missing.2.2]
    exact ⟨consistent, by rw [← absent, update_eq_self]⟩
  · rename_i entry found
    have held : ∀ other, other ≠ outpoint → CUTXOSet.held { s.removeFromCache outpoint with
        cacheAdditions := s.cacheAdditions.erase outpoint
        cacheDeletions := s.cacheDeletions.insert outpoint true
        stats := s.stats.subtract entry.out.nValue } other = s.held other := by
      intro other different
      simp only [CUTXOSet.held, lookup_insert_ne different, lookup_erase_ne different]
      rfl
    refine ⟨⟨consistent.isOpen, fun other item pending => ?_, fun other item hit => ?_⟩, ?_⟩
    · by_cases here : other = outpoint
      · subst here
        simp at pending
      · rw [lookup_erase_ne here] at pending
        exact consistent.short other item pending
    · by_cases here : other = outpoint
      · subst here
        simp [removeFromCache] at hit
      · rw [held other here]
        rw [removeFromCache, lookup_erase_ne here] at hit
        exact consistent.cached other item hit
    · funext other
      by_cases here : other = outpoint
      · subst here
        simp [CUTXOSet.held]
      · rw [held other here, update_of_ne here]

end

def flushed (s : CUTXOSet) : CUTXOSet :=
  { s with db := write s.flushBatch s.db, cacheAdditions := ∅, cacheDeletions := ∅ }

lemma flush_eq (isOpen : s.isOpen = true) : s.flush true = (true, s.flushed) := by
  simp [flush, isOpen, flushed]

lemma lookup_flushBatch (s : CUTXOSet) (db : Table Bytes Bytes) (outpoint : COutPoint) :
    (write s.flushBatch db).lookup (serializeOutPoint outpoint) =
      if (s.cacheDeletions.lookup outpoint).isSome then none
      else ((s.cacheAdditions.lookup outpoint).map serializeUTXOEntry).or (db.lookup (serializeOutPoint outpoint)) := by
  have injective : Function.Injective serializeOutPoint := fun _ _ same => serializeOutPoint_injective same
  rw [flushBatch, lookup_write_concat, Op.key, if_neg (statsKey_ne_serializeOutPoint outpoint),
    write_append, lookup_write_deletes injective, lookup_write_puts injective]

lemma lookup_flushBatch_of_unpending (unpending : s.Unpending outpoint) (db : Table Bytes Bytes) :
    (write s.flushBatch db).lookup (serializeOutPoint outpoint) = db.lookup (serializeOutPoint outpoint) := by
  simp [lookup_flushBatch, unpending.1, unpending.2]

lemma Consistent.stored_flushed (consistent : s.Consistent) : s.flushed.stored = s.held := by
  funext outpoint
  simp only [stored, flushed, lookup_flushBatch, held]
  by_cases deleted : (s.cacheDeletions.lookup outpoint).isSome = true
  · rw [if_pos deleted, if_pos deleted]
    rfl
  · rw [if_neg deleted, if_neg deleted]
    cases added : s.cacheAdditions.lookup outpoint with
    | none => rfl
    | some entry =>
      rw [map_some, some_or, some_or, bind_some,
        deserialize_serializeUTXOEntry (consistent.short outpoint entry added)]

lemma Consistent.flushed (consistent : s.Consistent) : s.flushed.Coherent where
  isOpen := consistent.isOpen
  additions := rfl
  deletions := rfl
  cached := by
    rw [consistent.stored_flushed]
    exact consistent.cached

end Dilithion.CUTXOSet
