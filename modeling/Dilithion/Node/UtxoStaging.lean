import Dilithion.Node.UtxoSet

/-! The key space and the record formats of the UTXO database. Outpoint keys are injective, an entry
reads back as it was written, and so does an undo record. Outpoint keys and undo keys are both 37
bytes long and start with `'u'`, so each undo key is also the key of one outpoint, its slot. -/

namespace Dilithion

open Lib Lib.Decoder LittleEndian Decoder List

lemma serializeOutPoint_injective {a b : COutPoint} (same : serializeOutPoint a = serializeOutPoint b) : a = b := by
  simp only [serializeOutPoint, cons.injEq, true_and] at same
  obtain ⟨hash, index⟩ := append_inj same (by simp)
  have sameHash := Uint256.ext_data hash
  have sameIndex := serializeUint32_injective index
  cases a
  simp_all

@[simp] lemma serializeOutPoint_inj (a b : COutPoint) : serializeOutPoint a = serializeOutPoint b ↔ a = b :=
  ⟨serializeOutPoint_injective, fun same => same ▸ rfl⟩

@[simp] lemma serializeOutPoint_length (outpoint : COutPoint) : (serializeOutPoint outpoint).length = 37 := by
  simp [serializeOutPoint]

variable (blockHash : Uint256)

@[simp] lemma undoKey_length : (undoKey blockHash).length = 37 := by
  simp [undoKey]

lemma statsKey_ne_serializeOutPoint (outpoint : COutPoint) : statsKey ≠ serializeOutPoint outpoint :=
  fun same => by simpa [statsKey] using congrArg length same

lemma statsKey_ne_undoKey : statsKey ≠ undoKey blockHash :=
  fun same => by simpa [statsKey] using congrArg length same

lemma undoKey_injective {a b : Uint256} (same : undoKey a = undoKey b) : a = b :=
  Uint256.ext_data (append_cancel_left same)

def undoSlot : COutPoint where
  hash := ⟨[0x6e, 0x64, 0x6f, 0x5f] ++ blockHash.data.take 28, by simp⟩
  n := UInt32.ofNat (value (blockHash.data.drop 28))

lemma serializeOutPoint_undoSlot : serializeOutPoint (undoSlot blockHash) = undoKey blockHash := by
  have size : (blockHash.data.drop 28).length = 4 := by simp
  have bound : value (blockHash.data.drop 28) < 2 ^ 32 := by
    simpa using value_lt (blockHash.data.drop 28)
  have index : serializeUint32 (undoSlot blockHash).n = blockHash.data.drop 28 := by
    rw [serializeUint32, undoSlot, UInt32.toNat_ofNat_of_lt' bound]
    exact encode_value_of_length size
  rw [serializeOutPoint, index, undoKey]
  simp [undoSlot]

@[simp] lemma undoKey_eq_serializeOutPoint (outpoint : COutPoint) :
    undoKey blockHash = serializeOutPoint outpoint ↔ undoSlot blockHash = outpoint := by
  rw [← serializeOutPoint_undoSlot, serializeOutPoint_inj]

def CUTXOEntry.Short (entry : CUTXOEntry) : Prop := entry.out.scriptPubKey.length < 2 ^ 32

lemma toNat_ofNat_length {script : Bytes} (short : script.length < 2 ^ 32) :
    (UInt32.ofNat script.length).toNat = script.length :=
  UInt32.toNat_ofNat_of_lt' short

@[simp] lemma serializeBool_length (flag : Bool) : (serializeBool flag).length = 1 := rfl

@[simp] lemma value_serializeBool (flag : Bool) : (value (serializeBool flag) ≠ 0) ↔ flag = true := by
  cases flag <;> decide

variable {entry : CUTXOEntry}

lemma deserialize_serializeUTXOEntry (short : entry.Short) :
    deserializeUTXOEntry (serializeUTXOEntry entry) = some entry := by
  have size := toNat_ofNat_length short
  have whole : serializeUTXOEntry entry = serializeUint32 entry.nHeight ++ (serializeBool entry.fCoinBase ++
      (serializeUint64 entry.out.nValue ++ (serializeUint32 (UInt32.ofNat entry.out.scriptPubKey.length) ++
        entry.out.scriptPubKey))) := by
    simp [serializeUTXOEntry, size]
  have script : (serializeUTXOEntry entry).drop 17 = entry.out.scriptPubKey := by
    rw [whole]
    simp [drop_append, drop_of_length_le]
  have length : value (((serializeUTXOEntry entry).drop 13).take 4) = entry.out.scriptPubKey.length := by
    rw [whole]
    simp [drop_append, drop_of_length_le, serializeBool, value_serializeUint32, size]
  have value : ((serializeUTXOEntry entry).drop 5).take 8 = serializeUint64 entry.out.nValue := by
    rw [whole]
    simp [drop_append, drop_of_length_le, serializeBool]
  have flag : ((serializeUTXOEntry entry).drop 4).take 1 = serializeBool entry.fCoinBase := by
    rw [whole]
    simp [take_append]
  have height : (serializeUTXOEntry entry).take 4 = serializeUint32 entry.nHeight := by
    rw [whole]
    simp
  have total : (serializeUTXOEntry entry).length = 17 + entry.out.scriptPubKey.length := by
    rw [whole]
    simp
    omega
  unfold deserializeUTXOEntry
  rw [if_neg (by omega), if_neg (by omega), script, value, flag, height]
  simp

lemma short_of_deserializeUTXOEntry {data : Bytes} (read : deserializeUTXOEntry data = some entry) : entry.Short := by
  unfold deserializeUTXOEntry at read
  split at read
  · simp at read
  · dsimp only at read
    split at read
    · simp at read
    · simp only [Option.some.injEq] at read
      subst read
      have field := value_lt ((data.drop 13).take 4)
      have size : ((data.drop 13).take 4).length = 4 := by simp; omega
      rw [size] at field
      simp only [CUTXOEntry.Short, length_drop]
      omega

lemma uint256_ofNat_value (hash : Uint256) : Uint256.ofNat (value hash.data) = hash :=
  Uint256.ext_data (encode_value_of_length hash.size)

lemma deserialize_serializeUndoEntry {outpoint : COutPoint} (short : entry.Short) (rest : Bytes) :
    deserializeUndoEntry.run (serializeUndoEntry (outpoint, entry) ++ rest) = .ok ((outpoint, entry), rest) := by
  have size := toNat_ofNat_length short
  have whole : serializeUndoEntry (outpoint, entry) ++ rest =
      (outpoint.hash.data ++ serializeUint32 outpoint.n) ++ (serializeUint64 entry.out.nValue ++
        (serializeUint32 (UInt32.ofNat entry.out.scriptPubKey.length) ++ (entry.out.scriptPubKey ++
          ((serializeUint32 entry.nHeight ++ serializeBool entry.fCoinBase) ++ rest)))) := by
    simp [serializeUndoEntry]
  rw [whole, deserializeUndoEntry]
  rw [run_bind_ok (takeBytes_run (by simp) _ _), run_bind_ok (takeBytes_run (by simp) _ _),
    run_bind_ok (takeBytes_run (by simp) _ _),
    run_bind_ok (takeBytes_run (by rw [value_serializeUint32, size]) _ _),
    run_bind_ok (takeBytes_run (by simp) _ _)]
  simp [uint256_ofNat_value]
  rfl

lemma deserializeUndoEntry_yields : Decoder.Yields deserializeUndoEntry (fun record => record.2.Short) := by
  refine .then fun outpoint => .then fun nValue => .bind (.takeBytes 4 _) fun scriptLength field => ?_
  refine .bind (.takeBytes _ _) fun scriptPubKey size => .then fun rest => .pure ?_
  have bound := value_lt scriptLength
  rw [field, ← size] at bound
  exact bound

/-! Staged changes against the ledger of unspent outputs. The database holds a ledger; a set is
coherent when its cache repeats entries of that ledger. While a block is staged the cache repeats the
ledger after the staged changes, and what the staged changes created cannot be evicted as long as
there are fewer of them than the cache has room for. -/

open Lib.Ledger CUTXOSet

variable {env : Env} {s : CUTXOSet}

lemma getUTXO_of_settled (isOpen : s.isOpen = true) (additions : s.cacheAdditions = ∅)
    (deletions : s.cacheDeletions = ∅) (outpoint : COutPoint) :
    (s.getUTXO env outpoint).1 = (s.cache.lookup outpoint).or (s.stored outpoint) := by
  simp only [getUTXO, isOpen, not_true_eq_false, if_false, additions, deletions, AList.lookup_empty,
    Option.isSome_none, Bool.false_eq_true]
  cases s.cache.lookup outpoint with
  | some entry => rfl
  | none => cases s.stored outpoint <;> rfl

variable {outpoint : COutPoint}

/-- A lookup changes nothing but the cache, and there it only loads the outpoint it was asked for. -/
lemma getUTXO_loads {set : CUTXOSet} {entry : CUTXOEntry} (found : s.getUTXO env outpoint = (some entry, set)) :
    set = s ∨ set = s.updateCache env outpoint entry := by
  unfold getUTXO at found
  repeat' split at found
  all_goals first
    | exact .inl (by simpa using (congrArg Prod.snd found).symm)
    | (right; cases found; rfl)

lemma getUTXO_missing {set : CUTXOSet} (missing : s.getUTXO env outpoint = (none, set)) : set = s := by
  unfold getUTXO at missing
  repeat' split at missing
  all_goals simp_all

def CUTXOSet.view (env : Env) (s : CUTXOSet) : UTXOLedger :=
  fun outpoint => (s.getUTXO env outpoint).1

structure CUTXOSet.Coherent (s : CUTXOSet) : Prop where
  isOpen : s.isOpen = true
  additions : s.cacheAdditions = ∅
  deletions : s.cacheDeletions = ∅
  cached : ∀ outpoint entry, s.cache.lookup outpoint = some entry → s.stored outpoint = some entry

lemma CUTXOSet.Coherent.view_eq (coherent : s.Coherent) : s.view env = s.stored := by
  funext outpoint
  rw [view, getUTXO_of_settled coherent.isOpen coherent.additions coherent.deletions]
  cases hit : s.cache.lookup outpoint with
  | none => rfl
  | some entry => rw [coherent.cached outpoint entry hit]; rfl

namespace CUTXOSet

/-- The set after a sequence of lookups, each of which may load and evict cached entries. -/
def afterLookups (env : Env) (s : CUTXOSet) (asked : List COutPoint) : CUTXOSet :=
  asked.foldl (fun now outpoint => (now.getUTXO env outpoint).2) s

lemma getUTXO_db (env : Env) (s : CUTXOSet) (outpoint : COutPoint) : (s.getUTXO env outpoint).2.db = s.db := by
  cases answer : s.getUTXO env outpoint with
  | mk result set =>
    cases result with
    | none => rw [getUTXO_missing answer]
    | some entry => rcases getUTXO_loads answer with rfl | rfl <;> rfl

lemma Coherent.getUTXO (coherent : s.Coherent) (env : Env) (outpoint : COutPoint) :
    (s.getUTXO env outpoint).2.Coherent ∧ (s.getUTXO env outpoint).2.stored = s.stored := by
  cases answer : s.getUTXO env outpoint with
  | mk result set =>
    cases result with
    | none => rw [getUTXO_missing answer]; exact ⟨coherent, rfl⟩
    | some entry =>
      have read : s.view env = s.stored := coherent.view_eq
      have present : s.stored outpoint = some entry := by
        rw [← read, view, answer]
      rcases getUTXO_loads answer with rfl | rfl
      · exact ⟨coherent, rfl⟩
      · refine ⟨⟨coherent.isOpen, coherent.additions, coherent.deletions, ?_⟩, rfl⟩
        intro other found hit
        by_cases here : other = outpoint
        · subst here
          have same : entry = found := by simpa [updateCache] using hit
          exact same ▸ present
        · exact coherent.cached other found (LruCache.lookup_update_ne here hit)

/-- Lookups on a coherent set never change what later lookups answer. -/
lemma Coherent.view_afterLookups (coherent : s.Coherent) (asked : List COutPoint) :
    (s.afterLookups env asked).view env = s.view env := by
  induction asked generalizing s with
  | nil => rfl
  | cons outpoint rest ih =>
    have loaded := coherent.getUTXO env outpoint
    calc (s.afterLookups env (outpoint :: rest)).view env
        = ((s.getUTXO env outpoint).2.afterLookups env rest).view env := rfl
      _ = (s.getUTXO env outpoint).2.view env := ih loaded.1
      _ = s.view env := by rw [loaded.1.view_eq, loaded.2, coherent.view_eq]

end CUTXOSet

open Lib.WriteBatch Staged List

inductive Change where
  | remove (outpoint : COutPoint) (nValue : UInt64)
  | put (outpoint : COutPoint) (entry : CUTXOEntry)

namespace Change

def event : Change → UTXOEvent
  | remove outpoint _ => .consume outpoint
  | put outpoint entry => .create outpoint entry

def op : Change → Op Bytes Bytes
  | remove outpoint _ => .delete (serializeOutPoint outpoint)
  | put outpoint entry => .put (serializeOutPoint outpoint) (serializeUTXOEntry entry)

def count (stats : CUTXOStats) : Change → CUTXOStats
  | remove _ nValue => stats.subtract nValue
  | put _ entry => stats.add entry.out.nValue

def removed : Change → Option UInt64
  | remove _ nValue => some nValue
  | put _ _ => none

@[simp] lemma event_remove (outpoint : COutPoint) (nValue : UInt64) :
    (remove outpoint nValue).event = .consume outpoint := rfl
@[simp] lemma event_put (outpoint : COutPoint) (entry : CUTXOEntry) :
    (put outpoint entry).event = .create outpoint entry := rfl

end Change

def ShortEvents (events : List UTXOEvent) : Prop :=
  ∀ outpoint entry, .create outpoint entry ∈ events → entry.Short

def storedIn (db : Table Bytes Bytes) : UTXOLedger :=
  fun outpoint => (db.lookup (serializeOutPoint outpoint)).bind deserializeUTXOEntry

lemma CUTXOSet.stored_eq (s : CUTXOSet) : s.stored = storedIn s.db := rfl

lemma Change.op_key (change : Change) : change.op.key = serializeOutPoint change.event.key := by
  cases change <;> rfl

lemma Change.op_effect (change : Change) (short : ShortEvents [change.event]) :
    change.op.effect.bind deserializeUTXOEntry = change.event.effect := by
  cases change with
  | remove outpoint nValue => rfl
  | put outpoint entry =>
    rw [Change.op, Op.effect, Option.bind_some, deserialize_serializeUTXOEntry (short outpoint entry (by simp)),
      event_put, Event.effect_create]

variable {changes : List Change}

lemma storedIn_write (short : ShortEvents (changes.map Change.event)) (db : Table Bytes Bytes) :
    storedIn (write (changes.map Change.op) db) = run (storedIn db) (changes.map Change.event) := by
  induction changes using reverseRecOn with
  | nil => rfl
  | append_singleton before change ih =>
    have earlier := ih (fun outpoint entry member => short outpoint entry (by simp at member ⊢; exact .inl member))
    have last : ShortEvents [change.event] := fun outpoint entry member =>
      short outpoint entry (by simp at member ⊢; exact .inr member)
    funext outpoint
    have before_ := congrFun earlier outpoint
    simp only [map_append, map_cons, map_nil, run_concat, Event.apply, storedIn,
      lookup_write_concat, Change.op_key, serializeOutPoint_inj]
    by_cases here : change.event.key = outpoint
    · subst here
      simp [Change.op_effect change last]
    · rw [if_neg here, Function.update_of_ne (Ne.symm here), ← before_]
      rfl

/-- `staged` is the coherent set `base` with `changes` made to its cache, its counters and its batch.
A cached entry is one the changes put, or one of `base` that they leave alone. -/
structure Stages (base : CUTXOSet) (changes : List Change) (staged : Staged) : Prop where
  coherent : base.Coherent
  isOpen : staged.set.isOpen = true
  additions : staged.set.cacheAdditions = ∅
  deletions : staged.set.cacheDeletions = ∅
  db : staged.set.db = base.db
  batch : staged.batch = changes.map Change.op
  stats : staged.set.stats = changes.foldl Change.count base.stats
  origin : ∀ outpoint entry, staged.set.cache.lookup outpoint = some entry →
    effectAt outpoint (changes.map Change.event) = some (some entry) ∨
      effectAt outpoint (changes.map Change.event) = none ∧ base.cache.lookup outpoint = some entry
  retained : LruCache.Retains changes.length
    (fun outpoint entry => effectAt outpoint (changes.map Change.event) = some (some entry)) staged.set.cache

variable {base : CUTXOSet} {staged : Staged}

lemma Stages.cached (stages : Stages base changes staged) (outpoint : COutPoint) (entry : CUTXOEntry)
    (hit : staged.set.cache.lookup outpoint = some entry) :
    run base.stored (changes.map Change.event) outpoint = some entry := by
  rw [run_apply]
  rcases stages.origin outpoint entry hit with put | ⟨untouched, inBase⟩
  · rw [put, Option.getD_some]
  · rw [untouched, Option.getD_none, stages.coherent.cached outpoint entry inBase]

lemma CUTXOSet.Coherent.stages (coherent : s.Coherent) : Stages s [] ⟨s, []⟩ where
  coherent := coherent
  isOpen := coherent.isOpen
  additions := coherent.additions
  deletions := coherent.deletions
  db := rfl
  batch := rfl
  stats := rfl
  origin := fun _ _ hit => .inr ⟨rfl, hit⟩
  retained := (LruCache.Retains.nothing s.cache).mono (Nat.le_refl 0) (by simp [effectAt])

section

variable (stages : Stages base changes staged)

include stages

lemma Stages.put (room : changes.length < env.maxCacheSize) (outpoint : COutPoint) (entry : CUTXOEntry) :
    Stages base (changes ++ [.put outpoint entry]) (staged.put env outpoint entry) where
  coherent := stages.coherent
  isOpen := stages.isOpen
  additions := stages.additions
  deletions := stages.deletions
  db := stages.db
  batch := by simp [Staged.put, stages.batch, Change.op]
  stats := by simp [Staged.put, stages.stats, Change.count]
  origin := by
    intro other found hit
    simp only [map_append, map_cons, map_nil, effectAt_concat, Change.event_put]
    by_cases here : other = outpoint
    · subst here
      exact .inl (by simpa [Staged.put, updateCache] using hit)
    · rw [if_neg (by simpa using Ne.symm here)]
      exact stages.origin other found (LruCache.lookup_update_ne here hit)
  retained := by
    refine (stages.retained.update room outpoint entry).mono (by simp) ?_
    intro other found effect
    simp only [map_append, map_cons, map_nil, effectAt_concat, Change.event_put] at effect
    by_cases here : other = outpoint
    · subst here
      exact .inl ⟨rfl, by simpa [eq_comm] using effect⟩
    · rw [if_neg (by simpa using Ne.symm here)] at effect
      exact .inr ⟨here, effect⟩

/-- Removal only needs the cached entries of other outpoints to be right, so it also closes the gap
a lookup of the removed outpoint leaves. -/
lemma Stages.remove_of {cache : Table COutPoint CUTXOEntry} (outpoint : COutPoint) (nValue : UInt64)
    (others : ∀ other entry, other ≠ outpoint → cache.lookup other = some entry →
      staged.set.cache.lookup other = some entry)
    (retained : LruCache.Retains (changes.length + 1)
      (fun other entry => other ≠ outpoint ∧ effectAt other (changes.map Change.event) = some (some entry)) cache) :
    Stages base (changes ++ [.remove outpoint nValue])
      (remove { staged with set := { staged.set with cache } } outpoint nValue) where
  coherent := stages.coherent
  isOpen := stages.isOpen
  additions := stages.additions
  deletions := stages.deletions
  db := stages.db
  batch := by simp [remove, stages.batch, Change.op]
  stats := by simp [remove, stages.stats, Change.count]
  origin := by
    intro other found hit
    simp only [map_append, map_cons, map_nil, effectAt_concat, Change.event_remove]
    by_cases here : other = outpoint
    · subst here
      simp [remove, removeFromCache] at hit
    · rw [if_neg (by simpa using Ne.symm here)]
      refine stages.origin other found (others other found here ?_)
      simpa [remove, removeFromCache, AList.lookup_erase_ne here] using hit
  retained := by
    refine (retained.erase outpoint).mono (by simp) ?_
    intro other found effect
    simp only [map_append, map_cons, map_nil, effectAt_concat, Change.event_remove] at effect
    by_cases here : other = outpoint
    · subst here
      simp at effect
    · rw [if_neg (by simpa using Ne.symm here)] at effect
      exact ⟨here, here, effect⟩

lemma Stages.remove (outpoint : COutPoint) (nValue : UInt64) :
    Stages base (changes ++ [.remove outpoint nValue]) (staged.remove outpoint nValue) :=
  stages.remove_of outpoint nValue (fun _ _ _ hit => hit)
    (stages.retained.mono (Nat.le_succ _) (fun _ _ member => member.2))

/-- A lookup during staging reads the staged ledger, and through it the database: an outpoint whose
removal is only staged is found again. -/
lemma Stages.lookup (outpoint : COutPoint) : (staged.set.cache.lookup outpoint).or (base.stored outpoint) =
    (run base.stored (changes.map Change.event) outpoint).or (base.stored outpoint) := by
  cases hit : staged.set.cache.lookup outpoint with
  | some entry => rw [stages.cached outpoint entry hit]
  | none =>
    rw [run_apply]
    cases effect : effectAt outpoint (changes.map Change.event) with
    | none => simp
    | some left =>
      cases left with
      | none => rfl
      | some entry =>
        have cachedEntry := stages.retained.lookup effect
        rw [hit] at cachedEntry
        cases cachedEntry

end

namespace Staged

def written (staged : Staged) : CUTXOSet := { staged.set with db := write staged.batch staged.set.db }

def committed (staged : Staged) : CUTXOSet :=
  { staged.written with
    db := write staged.written.flushBatch staged.written.db, cacheAdditions := ∅, cacheDeletions := ∅ }

variable {staged : Staged}

lemma commit_eq (isOpen : staged.set.isOpen = true) (writes : CUTXOSet.Writes) : staged.commit writes =
    if writes.batch then (if writes.flush then (true, staged.committed) else (false, staged.written))
    else (false, staged.set) := by
  cases batch : writes.batch <;> cases flush : writes.flush <;>
    simp [commit, CUTXOSet.flush, isOpen, batch, flush, written, committed]

lemma commit_eq_true {writes : CUTXOSet.Writes} {s' : CUTXOSet}
    (isOpen : staged.set.isOpen = true) (done : staged.commit writes = (true, s')) : s' = staged.committed := by
  rw [commit_eq isOpen] at done
  repeat' split at done
  all_goals simp_all

variable {staged : Staged} (additions : staged.set.cacheAdditions = ∅) (deletions : staged.set.cacheDeletions = ∅)

include additions deletions

lemma lookup_committed {key : Bytes} (other : key ≠ statsKey) :
    staged.committed.db.lookup key = staged.written.db.lookup key := by
  have batch : staged.written.flushBatch = [.put statsKey (serializeStats staged.set.stats)] := by
    simp [flushBatch, written, additions, deletions]
  simp only [committed, batch, write_cons, write_nil]
  exact AList.lookup_insert_ne other

lemma stored_committed : staged.committed.stored = staged.written.stored := by
  funext outpoint
  simp only [stored, lookup_committed additions deletions (statsKey_ne_serializeOutPoint outpoint).symm]

end Staged

/-- The ledger after a batch of changes that ends with an operation on an undo key: the operation
shows in the slot of that key and nowhere else. -/
lemma storedIn_write_undo (short : ShortEvents (changes.map Change.event))
    (db : Table Bytes Bytes) (last : Op Bytes Bytes) {blockHash : Uint256} (undo : last.key = undoKey blockHash)
    (outpoint : COutPoint) :
    storedIn (write (changes.map Change.op ++ [last]) db) outpoint =
      if undoSlot blockHash = outpoint then last.effect.bind deserializeUTXOEntry
      else run (storedIn db) (changes.map Change.event) outpoint := by
  rw [← storedIn_write short, storedIn, lookup_write_concat, undo]
  simp only [undoKey_eq_serializeOutPoint]
  split <;> rfl

/-- A batch of changes that ends with an operation on one undo key leaves the others alone, unless a change
falls into their slot. -/
lemma lookup_write_other_undo (db : Table Bytes Bytes) (last : Op Bytes Bytes)
    {blockHash other : Uint256} (undo : last.key = undoKey blockHash) (different : other ≠ blockHash)
    (apart : effectAt (undoSlot other) (changes.map Change.event) = none) :
    (write (changes.map Change.op ++ [last]) db).lookup (undoKey other) = db.lookup (undoKey other) := by
  rw [lookup_write_concat, undo, if_neg fun same => different (undoKey_injective same).symm]
  refine lookup_write_of_untouched (fun op member => ?_) db
  obtain ⟨change, inside, rfl⟩ := mem_map.mp member
  rw [Change.op_key, ne_comm, Ne, undoKey_eq_serializeOutPoint]
  exact fun same => (effectAt_eq_none_iff _ _).mp apart _ (mem_map_of_mem inside) same.symm

end Dilithion
