import Dilithion.Node.UtxoCounters

/-! Scans of the UTXO database. `ForEach`, `UpdateStats` and `VerifyConsistency` walk the keys that start
with `'u'`, among them the undo records and the counters. As long as no undo record reads as an entry,
the first two see exactly the unspent outputs; the third takes every undo record for a broken entry. -/

namespace Dilithion

open Lib Lib.WriteBatch Lib.Ledger LittleEndian CUTXOSet List

/-- The database in the order of an iterator, which compares keys byte by byte. -/
def scanned (db : Table Bytes Bytes) : List (Bytes × Bytes) :=
  (db.entries.map fun entry => (entry.1, entry.2)).insertionSort fun first second => first.1 ≤ second.1

def outpointOfKey (key : Bytes) : COutPoint :=
  ⟨Uint256.ofNat (value ((key.drop 1).take 32)), UInt32.ofNat (value ((key.drop 33).take 4))⟩

def CTxOut.isNull (txout : CTxOut) : Bool := txout.nValue == 0 && txout.scriptPubKey.isEmpty

def CUTXOEntry.isNull (entry : CUTXOEntry) : Bool := entry.out.isNull

section

variable {σ : Type} (callback : σ → COutPoint → CUTXOEntry → Bool × σ)

/-- The loop of `ForEach` with the number of entries so far; the callback may stop it. -/
def forEachLoop : List (Bytes × Bytes) → Nat → σ → Nat × σ
  | [], count, state => (count, state)
  | (key, value) :: rest, count, state =>
    if key.head? ≠ some 0x75 then (count, state)
    else if key.length ≠ 37 then forEachLoop rest count state
    else match deserializeUTXOEntry value with
      | none => forEachLoop rest count state
      | some entry =>
        if (callback state (outpointOfKey key) entry).1 then
          forEachLoop rest (count + 1) (callback state (outpointOfKey key) entry).2
        else (count, (callback state (outpointOfKey key) entry).2)

/-- The iterator starts at the first key that is not below `"u"`. -/
def CUTXOSet.forEach (s : CUTXOSet) (state : σ) : Nat × σ :=
  if ¬ s.isOpen then (0, state)
  else forEachLoop callback ((scanned s.db).dropWhile fun item => decide (item.1 < [0x75])) 0 state

end

/-- A value that `UpdateStats` counts: any key of the prefix but that of the counters. -/
def countedValue (item : Bytes × Bytes) : Option CUTXOEntry :=
  if item.1.head? ≠ some 0x75 then none
  else if item.1 = statsKey then none
  else deserializeUTXOEntry item.2

namespace CUTXOSet

def updateStats (s : CUTXOSet) : Bool × CUTXOSet :=
  if ¬ s.isOpen then (false, s)
  else
    let entries := (scanned s.db).filterMap countedValue
    (true, { s with stats := { s.stats with
      nUTXOs := entries.foldl (fun utxo_count _ => utxo_count + 1) 0
      nTotalAmount := entries.foldl (fun total_amount entry => total_amount + entry.out.nValue) 0 } })

def verifyItem (item : Bytes × Bytes) : Bool :=
  if item.1.head? ≠ some 0x75 then true
  else if item.1 = statsKey then true
  else if item.1.length ≠ 37 then false
  else match deserializeUTXOEntry item.2 with
    | none => false
    | some entry => !entry.isNull

def verifyConsistency (s : CUTXOSet) : Bool :=
  if ¬ s.isOpen then false else (scanned s.db).all verifyItem

end CUTXOSet

variable {db : Table Bytes Bytes} {key value : Bytes}

lemma mem_scanned : (key, value) ∈ scanned db ↔ db.lookup key = some value := by
  rw [scanned, mem_insertionSort, mem_map, ← Option.mem_def, AList.mem_lookup_iff]
  constructor
  · rintro ⟨⟨at_, stored⟩, member, same⟩
    cases same
    exact member
  · exact fun member => ⟨⟨key, value⟩, member, rfl⟩

lemma scanned_keys (db : Table Bytes Bytes) : (scanned db).Pairwise fun first second => first.1 ≠ second.1 := by
  have distinct : (db.entries.map fun entry => (entry.1, entry.2)).Pairwise fun first second => first.1 ≠ second.1 :=
    pairwise_map.mpr (nodupKeys_iff_pairwise.mp db.nodupKeys)
  exact (perm_insertionSort _ _).symm.pairwise distinct fun different same => different same.symm

def readItem (item : Bytes × Bytes) : Option (COutPoint × CUTXOEntry) :=
  if item.1.head? = some 0x75 ∧ item.1.length = 37 then (deserializeUTXOEntry item.2).map fun entry =>
    (outpointOfKey item.1, entry)
  else none

lemma serializeOutPoint_outpointOfKey {key : Bytes} (first : key.head? = some 0x75) (size : key.length = 37) :
    serializeOutPoint (outpointOfKey key) = key := by
  cases key with
  | nil => cases first
  | cons byte rest =>
    obtain rfl : byte = 0x75 := Option.some.inj first
    have long : rest.length = 36 := Nat.succ.inj size
    have hash : (rest.take 32).length = 32 := by rw [length_take]; omega
    have index : (rest.drop 32).length = 4 := by rw [length_drop]; omega
    have bound : value (rest.drop 32) < 2 ^ 32 := by simpa [index] using value_lt (rest.drop 32)
    have hashBytes : (outpointOfKey (0x75 :: rest)).hash.data = rest.take 32 := encode_value_of_length hash
    have indexBytes : serializeUint32 (outpointOfKey (0x75 :: rest)).n = rest.drop 32 := by
      have whole : (rest.drop 32).take 4 = rest.drop 32 := take_of_length_le (by omega)
      show serializeUint32 (UInt32.ofNat (value ((rest.drop 32).take 4))) = _
      rw [whole, serializeUint32, UInt32.toNat_ofNat_of_lt' bound, encode_value_of_length index]
    rw [serializeOutPoint, hashBytes, indexBytes, take_append_drop]

variable {item : Bytes × Bytes} {outpoint : COutPoint} {entry : CUTXOEntry}

lemma readItem_eq_some :
    readItem item = some (outpoint, entry) ↔ item.1 = serializeOutPoint outpoint ∧
    deserializeUTXOEntry item.2 = some entry := by
  unfold readItem
  constructor
  · intro read
    split at read
    · rename_i form
      obtain ⟨found, reads, same⟩ := Option.map_eq_some_iff.mp read
      cases same
      exact ⟨(serializeOutPoint_outpointOfKey form.1 form.2).symm, reads⟩
    · cases read
  · rintro ⟨key, reads⟩
    have first : item.1.head? = some 0x75 := by rw [key]; rfl
    have size : item.1.length = 37 := by rw [key, serializeOutPoint_length]
    have same : outpointOfKey item.1 = outpoint :=
      serializeOutPoint_injective ((serializeOutPoint_outpointOfKey first size).trans key)
    rw [if_pos ⟨first, size⟩, reads, same]
    rfl

def visited (db : Table Bytes Bytes) : List (COutPoint × CUTXOEntry) := (scanned db).filterMap readItem

lemma mem_visited : (outpoint, entry) ∈ visited db ↔ storedIn db outpoint = some entry := by
  rw [visited, mem_filterMap, storedIn, Option.bind_eq_some_iff]
  constructor
  · rintro ⟨⟨key, value⟩, member, read⟩
    obtain ⟨rfl, reads⟩ := readItem_eq_some.mp read
    exact ⟨value, mem_scanned.mp member, reads⟩
  · rintro ⟨value, found, reads⟩
    exact ⟨(serializeOutPoint outpoint, value), mem_scanned.mpr found, readItem_eq_some.mpr ⟨rfl, reads⟩⟩

lemma visited_distinct (db : Table Bytes Bytes) : (visited db).Pairwise fun first second => first.1 ≠ second.1 := by
  refine List.Pairwise.filterMap readItem
    (fun item item' different first read second read' same => ?_) (scanned_keys db)
  have key := (readItem_eq_some.mp read).1
  have key' := (readItem_eq_some.mp read').1
  rw [← same] at key'
  exact different (key.trans key'.symm)

/-- What may stand in the database: the counters, undo records, and entries that read back. -/
def Known (key value : Bytes) : Prop :=
  key = statsKey ∨ (∃ hash, key = undoKey hash) ∨ ∃ outpoint entry, key = serializeOutPoint outpoint ∧
    deserializeUTXOEntry value = some entry

def Tidy (db : Table Bytes Bytes) : Prop := ∀ key value, db.lookup key = some value → Known key value

lemma Tidy.head (tidy : Tidy db) (member : item ∈ scanned db) : item.1.head? = some 0x75 := by
  rcases tidy _ _ (mem_scanned.mp member) with same | ⟨hash, same⟩ | ⟨outpoint, entry, same, -⟩ <;> rw [same] <;> rfl

lemma Tidy.size (tidy : Tidy db) (member : item ∈ scanned db) (other : item.1 ≠ statsKey) : item.1.length = 37 := by
  rcases tidy _ _ (mem_scanned.mp member) with same | ⟨hash, same⟩ | ⟨outpoint, entry, same, -⟩
  · exact absurd same other
  · rw [same, undoKey_length]
  · rw [same, serializeOutPoint_length]

section

variable {σ : Type} (callback : σ → COutPoint → CUTXOEntry → Bool × σ)

def visitUntil : List (COutPoint × CUTXOEntry) → Nat → σ → Nat × σ
  | [], count, state => (count, state)
  | (outpoint, entry) :: rest, count, state =>
    if (callback state outpoint entry).1 then visitUntil rest (count + 1) (callback state outpoint entry).2
    else (count, (callback state outpoint entry).2)

lemma forEachLoop_eq {items : List (Bytes × Bytes)} (heads : ∀ item ∈ items, item.1.head? = some 0x75)
    (count : Nat) (state : σ) :
    forEachLoop callback items count state = visitUntil callback (items.filterMap readItem) count state := by
  induction items generalizing count state with
  | nil => rfl
  | cons item rest ih =>
    obtain ⟨key, value⟩ := item
    have head : key.head? = some 0x75 := heads (key, value) mem_cons_self
    have later := ih fun other member => heads other (mem_cons_of_mem _ member)
    rw [forEachLoop, if_neg (not_not.mpr head), filterMap_cons, readItem]
    by_cases size : key.length = 37
    · rw [if_neg (not_not.mpr size), if_pos ⟨head, size⟩]
      cases read : deserializeUTXOEntry value with
      | none => exact later count state
      | some entry =>
        simp only [Option.map_some, visitUntil]
        rw [later]
    · rw [if_pos size, if_neg fun form => size form.2]
      exact later count state

lemma forEach_eq {s : CUTXOSet} (isOpen : s.isOpen = true) (tidy : Tidy s.db) (state : σ) :
    s.forEach callback state = visitUntil callback (visited s.db) 0 state := by
  have whole : (scanned s.db).dropWhile (fun item => decide (item.1 < [0x75])) = scanned s.db := by
    cases items : scanned s.db with
    | nil => rfl
    | cons item rest =>
      have head := tidy.head (items ▸ mem_cons_self : item ∈ scanned s.db)
      obtain ⟨behind, same⟩ : ∃ behind, item.1 = 0x75 :: behind := head?_eq_some_iff.mp head
      have above : ¬ item.1 < [0x75] := by simp [same]
      rw [dropWhile_cons_of_neg (by simpa using above)]
  rw [forEach, if_neg (by simp [isOpen]), whole]
  exact forEachLoop_eq callback (fun item member => tidy.head member) 0 state

end

lemma counted_eq (tidy : Tidy db) : (scanned db).filterMap countedValue = (visited db).map Prod.snd := by
  rw [visited, map_filterMap]
  refine filterMap_congr fun item member => ?_
  have head := tidy.head member
  rw [countedValue, if_neg (not_not.mpr head), readItem]
  by_cases isStats : item.1 = statsKey
  · rw [if_pos isStats, if_neg fun form => by simp [isStats, statsKey] at form]
    rfl
  · rw [if_neg isStats, if_pos ⟨head, tidy.size member isStats⟩]
    simp

lemma foldl_count (entries : List CUTXOEntry) (start : UInt64) :
    entries.foldl (fun utxo_count _ => utxo_count + 1) start = start + UInt64.ofNat entries.length := by
  induction entries generalizing start with
  | nil => simp
  | cons entry rest ih =>
    rw [foldl_cons, ih, length_cons, UInt64.ofNat_add, UInt64.add_comm (UInt64.ofNat rest.length), UInt64.add_assoc]
    rfl

lemma foldl_amount (entries : List CUTXOEntry) (start : UInt64) :
    entries.foldl (fun total_amount entry => total_amount + entry.out.nValue) start =
      start + UInt64.ofNat (entries.map CUTXOEntry.worth).sum := by
  induction entries generalizing start with
  | nil => simp
  | cons entry rest ih =>
    rw [foldl_cons, ih, map_cons, sum_cons, UInt64.ofNat_add, UInt64.add_assoc, CUTXOEntry.worth, UInt64.ofNat_toNat]

variable {s : CUTXOSet}

/-- A scan counts the outputs of the ledger that the database stores. -/
lemma updateStats_eq {live : Finset COutPoint} (isOpen : s.isOpen = true) (tidy : Tidy s.db)
    (counted : Counted s.stored s.stats live) : s.updateStats = (true, s) := by
  have nodup : ((visited s.db).map Prod.fst).Nodup := pairwise_map.mpr (visited_distinct s.db)
  have isLive : ((visited s.db).map Prod.fst).toFinset = live := by
    ext outpoint
    rw [mem_toFinset, counted.live_iff, mem_map, Option.ne_none_iff_exists']
    constructor
    · rintro ⟨⟨_, entry⟩, member, rfl⟩
      exact ⟨entry, mem_visited.mp member⟩
    · rintro ⟨entry, found⟩
      exact ⟨(outpoint, entry), mem_visited.mpr found, rfl⟩
  have count : (visited s.db).length = s.stats.nUTXOs.toNat := by
    rw [← counted.card, ← isLive, toFinset_card_of_nodup nodup, length_map]
  have total : (((visited s.db).map Prod.snd).map CUTXOEntry.worth).sum = s.stats.nTotalAmount.toNat := by
    rw [← counted.sum, ← isLive, sum_toFinset _ nodup, map_map, map_map]
    refine congrArg sum (map_congr_left fun item member => ?_)
    have found : s.stored item.1 = some item.2 := mem_visited.mp member
    simp [weightAt, found]
  rw [updateStats, if_neg (by simp [isOpen])]
  simp only [counted_eq tidy, foldl_count, foldl_amount, length_map, count, total, UInt64.zero_add, UInt64.ofNat_toNat]

lemma verifyItem_outpoint (outpoint : COutPoint) (value : Bytes) :
    verifyItem (serializeOutPoint outpoint, value) = (deserializeUTXOEntry value).any fun entry => !entry.isNull := by
  rw [verifyItem, if_neg (statsKey_ne_serializeOutPoint outpoint).symm,
    if_neg (not_not.mpr (serializeOutPoint_length outpoint))]
  cases deserializeUTXOEntry value <;> rfl

/-- The check passes if no undo record is stored and no entry is null. -/
lemma verifyConsistency_iff (isOpen : s.isOpen = true) (tidy : Tidy s.db)
    (unreadable : ∀ hash value, s.db.lookup (undoKey hash) = some value → deserializeUTXOEntry value = none) :
    s.verifyConsistency = true ↔
      (∀ hash, s.db.lookup (undoKey hash) = none) ∧ ∀ outpoint entry, s.stored outpoint = some entry →
      entry.isNull = false := by
  rw [verifyConsistency, if_neg (by simp [isOpen]), all_eq_true]
  constructor
  · intro passes
    refine ⟨fun hash => ?_, fun outpoint entry found => ?_⟩
    · cases record : s.db.lookup (undoKey hash) with
      | none => rfl
      | some value =>
        have check := passes _ (mem_scanned.mpr record)
        rw [← serializeOutPoint_undoSlot, verifyItem_outpoint, unreadable hash value record] at check
        cases check
    · obtain ⟨value, stored, read⟩ := Option.bind_eq_some_iff.mp found
      have check := passes _ (mem_scanned.mpr stored)
      rw [verifyItem_outpoint, read] at check
      simpa using check
  · rintro ⟨none_, proper⟩ ⟨key, value⟩ member
    have found := mem_scanned.mp member
    rcases tidy _ _ found with same | ⟨hash, same⟩ | ⟨outpoint, entry, same, read⟩
    · simp [verifyItem, same]
    · rw [same, none_ hash] at found
      cases found
    · have stored : s.stored outpoint = some entry := Option.bind_eq_some_iff.mpr ⟨value, same ▸ found, read⟩
      rw [same, verifyItem_outpoint, read]
      simp [proper outpoint entry stored]

lemma Tidy.write (tidy : Tidy db) {batch : List (Op Bytes Bytes)}
    (known : ∀ key value, .put key value ∈ batch → Known key value) : Tidy (write batch db) := by
  intro key value found
  rcases put_mem_of_lookup_write found with put | before
  · exact known key value put
  · exact tidy key value before

lemma known_of_changes {changes : List Change} (short : ShortEvents (changes.map Change.event))
    (put : .put key value ∈ changes.map Change.op) : Known key value := by
  obtain ⟨change, member, same⟩ := mem_map.mp put
  cases change with
  | remove outpoint nValue => cases same
  | put outpoint entry =>
    cases same
    exact .inr (.inr ⟨outpoint, entry, rfl,
      deserialize_serializeUTXOEntry (short outpoint entry (mem_map_of_mem member))⟩)

lemma Tidy.committed {staged : Staged} (tidy : Tidy staged.set.db) (additions : staged.set.cacheAdditions = ∅)
    (known : ∀ key value, .put key value ∈ staged.batch → Known key value) : Tidy staged.committed.db := by
  refine Tidy.write (tidy.write known) fun key value put => ?_
  have batch : staged.written.flushBatch = staged.set.cacheDeletions.entries.map
      (fun entry => .delete (serializeOutPoint entry.1)) ++
      [.put statsKey (serializeStats staged.set.stats)] := by
    simp [flushBatch, Staged.written, additions]
  rw [batch] at put
  simp only [mem_append, mem_map, reduceCtorEq, and_false, exists_false, mem_singleton, Op.put.injEq, false_or] at put
  exact .inl put.1

structure Scans (env : Env) (s : CUTXOSet) (p : PlainSet) : Prop where
  tracked : Tracked env s p
  tidy : Tidy s.db

section

variable {env : Env} {s : CUTXOSet} {p : PlainSet}

lemma Tracked.stored_eq (tracked : Tracked env s p) : s.stored = p.entries := by
  rw [← tracked.coherent.held_eq, tracked.represents.entries]

variable {blockHash : Uint256}

lemma Scans.applyBlock (scans : Scans env s p) {block : CBlock} {height : UInt32}
    (counts : ApplyCounts env s.stats p.entries (blockEvents env.hashes height block))
    (found : (spentRecords p.entries p.entries (blockEvents env.hashes height block)).isSome) :
    Scans env (s.applyBlock env {} block height blockHash).2 (p.applyBlock env.hashes block height blockHash) := by
  rcases applyBlock_cases {} blockHash scans.tracked.coherent counts.room with
    ⟨empty, outcome⟩ | ⟨changes, set, stops, outcome⟩ | ⟨changes, applying, nonempty, applies, outcome⟩
  · rw [outcome, PlainSet.applyBlock, if_pos (by simp [empty])]
    exact scans
  · have missing := stops.no_records
    rw [scans.tracked.stored_eq] at missing
    simp [missing] at found
  · have isOpen : (applying.finish env height blockHash).set.isOpen = true := applies.stages.isOpen
    have committed : s.applyBlock env {} block height blockHash =
        (true, (applying.finish env height blockHash).committed) := by
      rw [outcome, Staged.commit_eq isOpen]
      rfl
    refine ⟨scans.tracked.applyBlock counts (by rw [committed]), ?_⟩
    rw [committed]
    have before : Tidy (applying.finish env height blockHash).set.db := by
      show Tidy applying.staged.set.db
      rw [applies.stages.db]
      exact scans.tidy
    refine before.committed applies.stages.additions fun key value put => ?_
    have short : ShortEvents (changes.map Change.event) :=
      applies.walked ▸ shortEvents_blockEvents env.hashes height block
    simp only [Applying.finish, applies.stages.batch, mem_append, mem_singleton] at put
    rcases put with change | undo
    · exact known_of_changes short change
    · cases undo
      exact .inr (.inl ⟨blockHash, rfl⟩)

lemma Scans.undoBlock (scans : Scans env s p) {block : CBlock} (counts : UndoCounts env s.stats p block blockHash) :
    Scans env (s.undoBlock env {} block blockHash).2 (p.undoBlock env.hashes block blockHash) := by
  rcases scans.tracked.represents.undoBlock_planned scans.tracked.coherent counts.room counts.clear with
    ⟨outcome, same⟩ | ⟨plan, staged, chosen, -, stages, outcome, -⟩
  · rw [outcome, same]
    exact scans
  · refine ⟨scans.tracked.undoBlock counts (by rw [outcome]), ?_⟩
    rw [outcome]
    have before : Tidy (plan.finish staged).set.db := by
      show Tidy staged.set.db
      rw [stages.db]
      exact scans.tidy
    refine before.committed stages.additions fun key value put => ?_
    simp only [UndoPlan.finish, Staged.lowered, stages.batch, mem_append] at put
    rcases put with change | last
    · exact known_of_changes (undoPlan_short chosen) change
    · unfold UndoPlan.last at last
      split at last
      · cases last
      · cases mem_singleton.mp last

lemma Scans.flush (scans : Scans env s p) : Scans env (s.flush true).2 p := by
  have isOpen := scans.tracked.coherent.isOpen
  rw [flush_eq isOpen]
  refine ⟨⟨scans.tracked.represents.consistent.flushed, scans.tracked.represents.flushed, scans.tracked.counted⟩, ?_⟩
  have nothing : s.flushed.db = (⟨s, []⟩ : Staged).committed.db := rfl
  rw [nothing]
  exact Tidy.committed scans.tidy scans.tracked.coherent.additions fun key value put => by cases put

end

/-- What a call needs for the scans to stay exact: an applied block finds its inputs, and no change of a
block touches the wrong entry or counter. -/
def UtxoCall.Scannable (env : Env) (s : CUTXOSet) (p : PlainSet) : UtxoCall → Prop
  | applyBlock block height _ => ApplyCounts env s.stats p.entries (blockEvents env.hashes height block) ∧
      (spentRecords p.entries p.entries (blockEvents env.hashes height block)).isSome
  | undoBlock block blockHash => UndoCounts env s.stats p block blockHash
  | flush => True
  | _ => False

inductive ScanRun (env : Env) : List UtxoCall → CUTXOSet → PlainSet → Prop where
  | start : ScanRun env [] emptySet .empty
  | call {calls : List UtxoCall} {now : CUTXOSet} {map : PlainSet} (run : ScanRun env calls now map) (next : UtxoCall)
      (scannable : next.Scannable env now map) :
        ScanRun env (calls ++ [next]) (next.perform env now) (next.plain env.hashes map)

lemma Scans.call {env : Env} {p : PlainSet} (scans : Scans env s p) {next : UtxoCall}
    (scannable : next.Scannable env s p) : Scans env (next.perform env s) (next.plain env.hashes p) := by
  cases next with
  | getUTXO outpoint => exact scannable.elim
  | addUTXO outpoint out height fCoinBase => exact scannable.elim
  | spendUTXO outpoint => exact scannable.elim
  | applyBlock block height blockHash => exact scans.applyBlock scannable.1 scannable.2
  | undoBlock block blockHash => exact scans.undoBlock scannable
  | flush => exact scans.flush

lemma ScanRun.scans {env : Env} {calls : List UtxoCall} {now : CUTXOSet} {map : PlainSet}
    (run : ScanRun env calls now map) :
    Scans env now map := by
  induction run with
  | start => exact ⟨tracked_emptySet env, fun key value found => by simp [emptySet] at found⟩
  | call earlier next scannable ih => exact ih.call scannable

/-- Along every such run `ForEach` visits each unspent output once, with its entry, and `UpdateStats`
changes nothing; `VerifyConsistency` passes exactly in the states without undo records and null entries. -/
theorem scans_exact_of_run {env : Env} {calls : List UtxoCall} {now : CUTXOSet} {map : PlainSet}
    (run : ScanRun env calls now map) :
    (∀ outpoint, (now.getUTXO env outpoint).1 = map.entries outpoint) ∧
    (∃ listed : List (COutPoint × CUTXOEntry), (listed.Pairwise fun first second => first.1 ≠ second.1) ∧
      (∀ outpoint entry, (outpoint, entry) ∈ listed ↔ map.entries outpoint = some entry) ∧
      ∀ (σ : Type) (callback : σ → COutPoint → CUTXOEntry → Bool × σ) (state : σ),
        now.forEach callback state = visitUntil callback listed 0 state) ∧
    now.updateStats = (true, now) ∧
    (now.verifyConsistency = true ↔ (∀ hash, now.db.lookup (undoKey hash) = none) ∧
      ∀ outpoint entry, map.entries outpoint = some entry → entry.isNull = false) := by
  obtain ⟨tracked, tidy⟩ := run.scans
  have isOpen := tracked.coherent.isOpen
  have stored := tracked.stored_eq
  obtain ⟨live, counted⟩ := tracked.counted
  have unreadable : ∀ hash value, now.db.lookup (undoKey hash) = some value → deserializeUTXOEntry value = none := by
    intro hash value found
    cases record : map.records hash with
    | none =>
      rw [tracked.represents.unrecorded hash record] at found
      cases found
    | some spent =>
      obtain ⟨kept, good⟩ := tracked.represents.recorded hash spent record
      rw [kept] at found
      cases found
      exact good.unreadable
  refine ⟨tracked.represents.answers env, ⟨visited now.db, visited_distinct now.db, fun outpoint entry => ?_, ?_⟩,
    updateStats_eq isOpen tidy (stored ▸ counted), ?_⟩
  · rw [mem_visited, ← stored_eq, stored]
  · exact fun σ callback state => forEach_eq callback isOpen tidy state
  · rw [verifyConsistency_iff isOpen tidy unreadable, stored]

/-- An output is spent, two stay, and the set is flushed. -/
theorem scans_exact_payment :
    ∃ now map, ScanRun fundingEnv [.applyBlock fundingBlock 1 (.ofNat 7), .applyBlock payingBlock 2 (.ofNat 8), .flush]
      now map ∧
      now.stats.nUTXOs = 2 ∧ now.updateStats = (true, now) := by
  have funded : ScanRun fundingEnv [.applyBlock fundingBlock 1 (.ofNat 7)] appliedFunding plainFunding :=
    ScanRun.start.call (.applyBlock fundingBlock 1 (.ofNat 7)) ⟨fundingBlock_counts, by decide⟩
  have flushed := (funded.call (.applyBlock payingBlock 2 (.ofNat 8)) ⟨payingBlock_counts, by decide +kernel⟩).call
    .flush trivial
  exact ⟨_, _, flushed, by decide +kernel, (scans_exact_of_run flushed).2.2.1⟩
/-- The database of a node that has applied one block, the coinbase block, does not pass the check. -/
theorem applied_block_fails_check : (emptySet.applyBlock doubleSpendEnv {} rewardBlock 1 (.ofNat 7)).1 = true ∧
    (emptySet.applyBlock doubleSpendEnv {} rewardBlock 1 (.ofNat 7)).2.verifyConsistency = false := by
  decide +kernel

end Dilithion
