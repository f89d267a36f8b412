import Dilithion.Lib.Lists
import Dilithion.Lib.WriteBatch

/-! Tables whose entries name a parent. A rank that falls from child to parent bounds every walk upwards; marking what
lies below an entry is a sweep over the table that is repeated until nothing changes. -/

namespace Dilithion.Lib

open List Option

variable {K V R : Type} [DecidableEq K]

lemma dlookup_map_same (entries : List (Sigma fun _ : K => V)) (change : K → V → V) (key : K) :
    (entries.map fun entry => (⟨entry.1, change entry.1 entry.2⟩ : Sigma fun _ : K => V)).dlookup key =
      (entries.dlookup key).map (change key) := by
  induction entries with
  | nil => rfl
  | cons entry rest ih =>
    obtain ⟨here, value⟩ := entry
    by_cases same : here = key
    · subst same
      simp
    · rw [map_cons, dlookup_cons_ne _ _ (Ne.symm same), dlookup_cons_ne _ _ (Ne.symm same), ih]

def Table.modify (table : Table K V) (key : K) (change : V → V) : Table K V where
  entries := table.entries.map fun entry => ⟨entry.1, if entry.1 = key then change entry.2 else entry.2⟩
  nodupKeys := by
    have sameKeys : ∀ entries : List (Sigma fun _ : K => V),
        (entries.map fun entry => (⟨entry.1, if entry.1 = key then change entry.2 else entry.2⟩ :
          Sigma fun _ : K => V)).keys = entries.keys := by
      intro entries
      simp [List.keys, Function.comp_def]
    have distinct := table.nodupKeys
    rw [List.NodupKeys] at distinct ⊢
    rwa [sameKeys]

lemma Table.lookup_modify (table : Table K V) (key other : K) (change : V → V) :
    (table.modify key change).lookup other =
      if other = key then (table.lookup other).map change else table.lookup other := by
  have mapped := dlookup_map_same table.entries (fun at_ value => if at_ = key then change value else value) other
  refine mapped.trans ?_
  split
  · simp_all [AList.lookup]
  · simp_all [AList.lookup]

@[simp] lemma Table.keys_modify (table : Table K V) (key : K) (change : V → V) :
    (table.modify key change).keys = table.keys := by
  simp [Table.modify, AList.keys, keys, Function.comp_def]

@[simp] lemma Table.lookup_modify_self (table : Table K V) (key : K) (change : V → V) :
    (table.modify key change).lookup key = (table.lookup key).map change := by
  simp [Table.lookup_modify]

variable {table : Table K V}

lemma Table.lookup_modify_ne {key other : K} {change : V → V} (different : other ≠ key) :
    (table.modify key change).lookup other = table.lookup other := by
  simp [Table.lookup_modify, different]

lemma Table.mem_keys_iff {key : K} : key ∈ table.keys ↔ ∃ value, table.lookup key = some value := by
  rw [← isSome_iff_exists, AList.lookup_isSome, AList.mem_keys]

/-- A property of all entries can be checked on the list of entries. -/
lemma Table.forall_lookup (holds : K → V → Prop) (all : ∀ entry ∈ table.entries, holds entry.1 entry.2)
    (key : K) (value : V) (found : table.lookup key = some value) : holds key value :=
  all ⟨key, value⟩ (AList.mem_lookup_iff.mp found)

namespace ParentTree

variable (parent : V → Option K)

def chainFrom (table : Table K V) : Nat → Option K → List (K × V)
  | 0, _ => []
  | _ + 1, none => []
  | fuel + 1, some key =>
    match table.lookup key with
    | none => []
    | some value => (key, value) :: chainFrom table fuel (parent value)

/-- A node, its parent and so on; no chain in a tree is longer than the table. -/
def chain (table : Table K V) (start : Option K) : List (K × V) := chainFrom parent table table.keys.length start

@[simp] lemma chainFrom_none (table : Table K V) (fuel : Nat) : chainFrom parent table fuel none = [] := by
  cases fuel <;> rfl

@[simp] lemma chain_none (table : Table K V) : chain parent table none = [] :=
  chainFrom_none parent table _

def Ranked [LT R] (rank : V → R) (table : Table K V) : Prop :=
  ∀ key value above, table.lookup key = some value → parent value = some above →
    ∃ upper, table.lookup above = some upper ∧ rank upper < rank value

section Ranked

variable [LinearOrder R] {parent} {rank : V → R} {table : Table K V}

def upTo (rank : V → R) (table : Table K V) (bound : R) : Nat :=
  table.keys.countP fun key => (table.lookup key).any fun value => decide (rank value ≤ bound)

variable {key : K} {value : V}

lemma upTo_pos (rank : V → R) (found : table.lookup key = some value) : 0 < upTo rank table (rank value) :=
  countP_pos_iff.mpr ⟨key, Table.mem_keys_iff.mpr ⟨value, found⟩, by simp [found]⟩

lemma upTo_lt {upper : V} (found : table.lookup key = some value)
    (smaller : rank upper < rank value) : upTo rank table (rank upper) < upTo rank table (rank value) := by
  -- the node itself is counted on the right only
  refine countP_lt ?_ (Table.mem_keys_iff.mpr ⟨value, found⟩) ?_ ?_
  · intro other _ counted
    simp only [Option.any_eq_true, decide_eq_true_eq] at counted ⊢
    obtain ⟨here, at_, low⟩ := counted
    exact ⟨here, at_, le_trans low (le_of_lt smaller)⟩
  · simp [found, smaller]
  · simp [found]

section

variable (ranked : Ranked parent rank table)

include ranked

lemma chainFrom_enough
    (found : table.lookup key = some value) {fuel more : Nat} (enough : upTo rank table (rank value) ≤ fuel)
    (more_enough : upTo rank table (rank value) ≤ more) :
    chainFrom parent table fuel (some key) = chainFrom parent table more (some key) := by
  induction fuel generalizing key value more with
  | zero =>
    have counted := upTo_pos rank found
    omega
  | succ fuel ih =>
    have counted := upTo_pos rank found
    obtain ⟨more, rfl⟩ : ∃ smaller, more = smaller + 1 := ⟨more - 1, by omega⟩
    simp only [chainFrom, found]
    congr 1
    cases link : parent value with
    | none => simp
    | some above =>
      obtain ⟨upper, at_, smaller⟩ := ranked key value above found link
      have fewer := upTo_lt found smaller
      exact ih at_ (by omega) (by omega)

lemma chain_of_lookup (found : table.lookup key = some value) :
    chain parent table (some key) = (key, value) :: chain parent table (parent value) := by
  have bound : ∀ limit, upTo rank table limit ≤ table.keys.length := fun limit => countP_le_length
  have longer : chainFrom parent table table.keys.length (some key) =
      chainFrom parent table (table.keys.length + 1) (some key) :=
    chainFrom_enough ranked found (bound _) (Nat.le_succ_of_le (bound _))
  unfold chain
  rw [longer]
  simp only [chainFrom, found]

lemma Ranked.induction {motive : K → V → Prop} (step : ∀ key value, table.lookup key = some value →
    (∀ above upper, parent value = some above → table.lookup above = some upper → motive above upper) →
    motive key value) (found : table.lookup key = some value) : motive key value := by
  induction size : upTo rank table (rank value) using Nat.strong_induction_on generalizing key value with
  | _ size ih =>
    refine step key value found ?_
    intro above upper link at_
    obtain ⟨same, here, smaller⟩ := ranked key value above found link
    obtain rfl : same = upper := some.inj (here.symm.trans at_)
    exact ih _ (size ▸ upTo_lt found smaller) at_ rfl

end

/-- The node is in the table, and `good` holds of it and of all its ancestors. -/
def Lineage (parent : V → Option K) (table : Table K V) (good : V → Prop) (key : K) : Prop :=
  (∃ value, table.lookup key = some value) ∧ ∀ entry ∈ chain parent table (some key), good entry.2

variable {good : V → Prop}

omit [LinearOrder R] in
lemma not_lineage (missing : table.lookup key = none) : ¬ Lineage parent table good key := by
  rintro ⟨⟨value, found⟩, -⟩
  rw [missing] at found
  cases found

lemma lineage_iff (ranked : Ranked parent rank table) (found : table.lookup key = some value) :
    Lineage parent table good key ↔
      good value ∧ ∀ above, parent value = some above → Lineage parent table good above := by
  unfold Lineage
  rw [chain_of_lookup ranked found]
  constructor
  · rintro ⟨-, all⟩
    refine ⟨all (key, value) mem_cons_self, ?_⟩
    intro above link
    obtain ⟨upper, at_, -⟩ := ranked key value above found link
    exact ⟨⟨upper, at_⟩, fun entry member => all entry (mem_cons_of_mem _ (link ▸ member))⟩
  · rintro ⟨here, rest⟩
    refine ⟨⟨value, found⟩, ?_⟩
    intro entry member
    rcases mem_cons.mp member with rfl | later
    · exact here
    · cases link : parent value with
      | none => simp [link] at later
      | some above => exact (rest above link).2 entry (link ▸ later)

/-- Two tables that agree, up to the reading of `good`, on a set of nodes closed under parents. -/
lemma lineage_congr {other : Table K V} (ranked : Ranked parent rank table) (rankedOther : Ranked parent rank other)
    {good' : V → Prop} (inside : K → Prop)
    (closed : ∀ key value above, inside key → table.lookup key = some value → parent value = some above → inside above)
    (agree : ∀ key value, inside key → table.lookup key = some value →
      ∃ value', other.lookup key = some value' ∧ parent value' = parent value ∧ (good value ↔ good' value'))
    (found : table.lookup key = some value) :
    inside key → (Lineage parent table good key ↔ Lineage parent other good' key) := by
  refine ranked.induction (motive := fun key _ =>
    inside key → (Lineage parent table good key ↔ Lineage parent other good' key)) ?_ found
  intro key value found ih within
  obtain ⟨value', found', sameParent, sameGood⟩ := agree key value within found
  rw [lineage_iff ranked found, lineage_iff rankedOther found', sameParent, sameGood]
  refine and_congr_right fun _ => forall_congr' fun above => forall_congr' fun link => ?_
  obtain ⟨upper, at_, -⟩ := ranked key value above found link
  exact ih above upper link at_ (closed key value above within found link)

end Ranked

structure Sweep (K V : Type) where
  table : Table K V
  known : List K
  changed : Bool

section Marking

variable (visit : V → V) (enters : V → Bool)

/-- One turn of the inner loop: a node not reached yet whose parent has been is visited, and
counts as reached if it passes `enters` after the visit. -/
def visitEntry (s : Sweep K V) (key : K) : Sweep K V :=
  if key ∈ s.known then s
  else match s.table.lookup key with
    | none => s
    | some value =>
      match parent value with
      | none => s
      | some above =>
        if above ∈ s.known then
          if enters (visit value) then ⟨s.table.modify key visit, key :: s.known, true⟩
          else { s with table := s.table.modify key visit }
        else s

def sweep (table : Table K V) (known : List K) : Sweep K V :=
  table.keys.foldl (visitEntry parent visit enters) ⟨table, known, false⟩

def markLoop : Nat → Table K V → List K → Table K V × List K
  | 0, table, known => (table, known)
  | fuel + 1, table, known =>
    let s := sweep parent visit enters table known
    if s.changed then markLoop fuel s.table s.known else (s.table, s.known)

/-- Sweeps until nothing changes; each sweep but the last reaches a new node of the table. -/
def markBelow (table : Table K V) (start : K) : Table K V × List K :=
  markLoop parent visit enters (table.keys.length + 1) table [start]

inductive Reached (table : Table K V) (start : K) : K → Prop
  | start : Reached table start start
  | child {key above : K} {value : V} : table.lookup key = some value → parent value = some above →
      Reached table start above → enters (visit value) = true → Reached table start key

def Touched (table : Table K V) (start key : K) : Prop :=
  key ≠ start ∧ ∃ value above, table.lookup key = some value ∧ parent value = some above ∧
    Reached parent visit enters table start above

lemma visitEntry_cases (s : Sweep K V) (key : K) :
    (visitEntry parent visit enters s key = s ∧ (key ∈ s.known ∨ ∀ value above,
      s.table.lookup key = some value → parent value = some above → above ∉ s.known)) ∨
    ∃ value above, key ∉ s.known ∧ s.table.lookup key = some value ∧ parent value = some above ∧ above ∈ s.known ∧
      visitEntry parent visit enters s key =
        ⟨s.table.modify key visit, if enters (visit value) then key :: s.known else s.known,
          s.changed || enters (visit value)⟩ := by
  by_cases reached : key ∈ s.known
  · exact .inl ⟨by simp [visitEntry, reached], .inl reached⟩
  cases found : s.table.lookup key with
  | none => exact .inl ⟨by simp [visitEntry, found], .inr (by simp)⟩
  | some value =>
    cases link : parent value with
    | none => exact .inl ⟨by simp [visitEntry, found, link], .inr (by rintro _ _ ⟨⟩ linked; simp [link] at linked)⟩
    | some above =>
      by_cases upper : above ∈ s.known
      · cases admitted : enters (visit value) <;> simp [visitEntry, reached, found, link, upper, admitted]
      · refine .inl ⟨by simp [visitEntry, found, link, upper], .inr ?_⟩
        rintro _ _ ⟨⟩ linked
        rwa [← some.inj (link.symm.trans linked)]

variable {parent visit enters} {origin : Table K V} {start : K}

structure Marking (parent : V → Option K) (visit : V → V) (enters : V → Bool) (origin : Table K V) (start : K)
    (s : Sweep K V) : Prop where
  keys : s.table.keys = origin.keys
  start_known : start ∈ s.known
  sound : ∀ key ∈ s.known, Reached parent visit enters origin start key
  marked : ∀ key ∈ s.known, key ≠ start → s.table.lookup key = (origin.lookup key).map visit
  lookups : ∀ key, s.table.lookup key = origin.lookup key ∨
    (Touched parent visit enters origin start key ∧ s.table.lookup key = (origin.lookup key).map visit)

lemma Reached.of_agree {other : Table K V} (agree : ∀ key, key ≠ start → other.lookup key = origin.lookup key) {key : K}
    (reached : Reached parent visit enters origin start key) : Reached parent visit enters other start key := by
  induction reached with
  | start => exact .start
  | @child key above value found link _ admitted ih =>
    by_cases same : key = start
    · subst same
      exact .start
    · exact .child ((agree key same).trans found) link ih admitted

/-- What the loop reaches does not depend on the entry it starts from. -/
lemma reached_modify_iff (change : V → V) (key : K) :
    Reached parent visit enters (origin.modify start change) start key ↔ Reached parent visit enters origin start key :=
  ⟨.of_agree fun _ different => (Table.lookup_modify_ne different).symm, .of_agree fun _ => Table.lookup_modify_ne⟩

lemma touched_modify_iff (change : V → V) (key : K) :
    Touched parent visit enters (origin.modify start change) start key ↔
    Touched parent visit enters origin start key := by
  refine and_congr_right fun different => ?_
  simp only [Table.lookup_modify_ne different, reached_modify_iff]

/-- A node that needs no further visit while the reached nodes are `known`. -/
def Settled (parent : V → Option K) (visit : V → V) (enters : V → Bool) (origin table : Table K V) (known : List K)
    (key : K) : Prop :=
  key ∈ known ∨ ∀ value above, origin.lookup key = some value → parent value = some above → above ∈ known →
    table.lookup key = (origin.lookup key).map visit ∧ enters (visit value) = false

section Loop

variable (keepsParent : ∀ value, parent (visit value) = parent value)
variable (idempotent : ∀ value, visit (visit value) = visit value)
include keepsParent idempotent

variable {s : Sweep K V} {key : K}

section

variable (marking : Marking parent visit enters origin start s)

include marking

lemma Marking.origin_value {value : V} (found : s.table.lookup key = some value) :
    ∃ original, origin.lookup key = some original ∧ parent original = parent value ∧ visit original = visit value := by
  rcases marking.lookups key with same | ⟨-, visited⟩
  · exact ⟨value, same ▸ found, rfl, rfl⟩
  · rw [visited] at found
    obtain ⟨original, at_, rfl⟩ := map_eq_some_iff.mp found
    exact ⟨original, at_, (keepsParent original).symm, (idempotent original).symm⟩

lemma Marking.visitEntry (key : K) :
    Marking parent visit enters origin start (visitEntry parent visit enters s key) := by
  rcases visitEntry_cases parent visit enters s key with
    ⟨same, -⟩ | ⟨value, above, fresh, found, link, upper, visited⟩
  · rwa [same]
  obtain ⟨original, at_, sameParent, sameVisit⟩ := marking.origin_value keepsParent idempotent found
  have notStart : key ≠ start := fun same => fresh (same ▸ marking.start_known)
  have nowVisited : (s.table.modify key visit).lookup key = (origin.lookup key).map visit := by
    simp [found, at_, sameVisit]
  have touched : Touched parent visit enters origin start key :=
    ⟨notStart, original, above, at_, sameParent.trans link, marking.sound above upper⟩
  rw [visited]
  refine ⟨by simp [marking.keys], ?_, ?_, ?_, ?_⟩
  · split
    · exact mem_cons_of_mem _ marking.start_known
    · exact marking.start_known
  · intro other member
    split at member
    · rename_i admitted
      rcases mem_cons.mp member with rfl | old
      · exact .child at_ (sameParent.trans link) (marking.sound above upper) (sameVisit ▸ admitted)
      · exact marking.sound other old
    · exact marking.sound other member
  · intro other member different
    by_cases same : other = key
    · subst same
      exact nowVisited
    · rw [Table.lookup_modify_ne same]
      refine marking.marked other ?_ different
      split at member
      · exact (mem_cons.mp member).resolve_left same
      · exact member
  · intro other
    by_cases same : other = key
    · subst same
      exact .inr ⟨touched, nowVisited⟩
    · rw [Table.lookup_modify_ne same]
      exact marking.lookups other

lemma Marking.visited_visitEntry {other : K} (visited : s.table.lookup other = (origin.lookup other).map visit) :
    (ParentTree.visitEntry parent visit enters s key).table.lookup other = (origin.lookup other).map visit := by
  rcases visitEntry_cases parent visit enters s key with ⟨same, -⟩ | ⟨value, above, fresh, found, link, upper, after⟩
  · rwa [same]
  · rw [after]
    by_cases same : other = key
    · subst same
      obtain ⟨original, at_, -, sameVisit⟩ := marking.origin_value keepsParent idempotent found
      simp [found, at_, sameVisit]
    · rwa [Table.lookup_modify_ne same]

/-- After a turn that reached nothing new, the node of that turn needs no other. -/
lemma Marking.settled_visitEntry (quiet : (ParentTree.visitEntry parent visit enters s key).changed = false) :
    s.changed = false ∧ (ParentTree.visitEntry parent visit enters s key).known = s.known ∧
      Settled parent visit enters origin (ParentTree.visitEntry parent visit enters s key).table s.known key := by
  rcases visitEntry_cases parent visit enters s key with ⟨same, idle⟩ | ⟨value, above, fresh, found, link, upper, after⟩
  · rw [same] at quiet ⊢
    refine ⟨quiet, rfl, idle.imp_right ?_⟩
    intro unreachable value above at_ link upper
    obtain ⟨now, found⟩ : ∃ now, s.table.lookup key = some now := by
      rw [← Table.mem_keys_iff, marking.keys]
      exact Table.mem_keys_iff.mpr ⟨value, at_⟩
    obtain ⟨original, here, sameParent, -⟩ := marking.origin_value keepsParent idempotent found
    cases at_.symm.trans here
    exact absurd upper (unreachable now above found (sameParent ▸ link))
  · obtain ⟨original, here, -, sameVisit⟩ := marking.origin_value keepsParent idempotent found
    rw [after] at quiet ⊢
    have still := Bool.or_eq_false_iff.mp quiet
    refine ⟨still.1, by simp [still.2], .inr ?_⟩
    intro value' above' at_ _ _
    cases at_.symm.trans here
    exact ⟨by simp [found, here, sameVisit], sameVisit ▸ still.2⟩

end

omit keepsParent idempotent in
lemma known_visitEntry (s : Sweep K V) {other : K} (member : other ∈ s.known) :
    other ∈ (ParentTree.visitEntry parent visit enters s key).known := by
  rcases visitEntry_cases parent visit enters s key with ⟨same, -⟩ | ⟨value, above, fresh, found, link, upper, after⟩
  · rwa [same]
  · rw [after]
    split
    · exact mem_cons_of_mem _ member
    · exact member

omit keepsParent idempotent in
lemma new_of_changed (still : s.changed = false)
    (changed : (ParentTree.visitEntry parent visit enters s key).changed = true) :
    key ∉ s.known ∧ key ∈ (ParentTree.visitEntry parent visit enters s key).known := by
  rcases visitEntry_cases parent visit enters s key with ⟨same, -⟩ | ⟨value, above, fresh, found, link, upper, after⟩
  · rw [same, still] at changed
    cases changed
  · rw [after] at changed ⊢
    have admitted : enters (visit value) = true := by simpa [still] using changed
    exact ⟨fresh, by simp [admitted]⟩

/-- The run of one sweep over `keys`: either it reaches a new node, or afterwards all of them are settled. -/
lemma Marking.foldl (marking : Marking parent visit enters origin start s) (keys : List K) :
    let after := keys.foldl (ParentTree.visitEntry parent visit enters) s
    Marking parent visit enters origin start after ∧ s.known ⊆ after.known ∧
      (∀ key, s.table.lookup key = (origin.lookup key).map visit →
        after.table.lookup key = (origin.lookup key).map visit) ∧
      (after.changed = false → s.changed = false ∧ after.known = s.known ∧
        ∀ key ∈ keys, Settled parent visit enters origin after.table after.known key) ∧
      (s.changed = false → after.changed = true → ∃ key ∈ keys, key ∉ s.known ∧ key ∈ after.known) := by
  induction keys generalizing s with
  | nil => exact ⟨marking, List.Subset.refl _, fun _ visited => visited, fun quiet => ⟨quiet, rfl, by simp⟩,
      fun still changed => absurd changed (by simp [still])⟩
  | cons key rest ih =>
    have next := marking.visitEntry keepsParent idempotent key
    obtain ⟨kept, grows, stays, settles, reaches⟩ := ih next
    refine ⟨kept, fun other member => grows (known_visitEntry s member), ?_, ?_, ?_⟩
    · intro other visited
      exact stays other (marking.visited_visitEntry keepsParent idempotent visited)
    · intro quiet
      obtain ⟨quietTurn, sameKnown, settledRest⟩ := settles quiet
      obtain ⟨still, sameTurn, settledKey⟩ := marking.settled_visitEntry keepsParent idempotent quietTurn
      rw [sameTurn] at sameKnown
      refine ⟨still, sameKnown, ?_⟩
      intro other member
      rcases mem_cons.mp member with rfl | later
      · rw [foldl_cons, sameKnown]
        refine settledKey.imp_right ?_
        intro visits value above at_ link upper
        obtain ⟨visited, refused⟩ := visits value above at_ link upper
        exact ⟨stays other visited, refused⟩
      · exact settledRest other later
    · intro still changed
      cases turn : (ParentTree.visitEntry parent visit enters s key).changed with
      | true =>
        obtain ⟨fresh, member⟩ := new_of_changed still turn
        exact ⟨key, mem_cons_self, fresh, grows member⟩
      | false =>
        obtain ⟨other, member, fresh, reached⟩ := reaches turn changed
        exact ⟨other, mem_cons_of_mem _ member, fun old => fresh (known_visitEntry s old), reached⟩

lemma markLoop_settles {fuel : Nat} {table : Table K V} {known : List K}
    (marking : Marking parent visit enters origin start ⟨table, known, false⟩)
    (enough : origin.keys.countP (fun key => decide (key ∉ known)) < fuel) :
    let after := markLoop parent visit enters fuel table known
    Marking parent visit enters origin start ⟨after.1, after.2, false⟩ ∧
      ∀ key ∈ origin.keys, Settled parent visit enters origin after.1 after.2 key := by
  induction fuel generalizing table known with
  | zero => omega
  | succ fuel ih =>
    obtain ⟨kept, grows, -, settles, reaches⟩ := marking.foldl keepsParent idempotent table.keys
    have sameKeys : table.keys = origin.keys := marking.keys
    have swept : Marking parent visit enters origin start
        ⟨(sweep parent visit enters table known).table, (sweep parent visit enters table known).known, false⟩ :=
      ⟨kept.keys, kept.start_known, kept.sound, kept.marked, kept.lookups⟩
    dsimp only [markLoop]
    cases changed : (sweep parent visit enters table known).changed with
    | false =>
      obtain ⟨-, -, settled⟩ := settles changed
      exact ⟨swept, fun key member => settled key (sameKeys ▸ member)⟩
    | true =>
      obtain ⟨key, member, fresh, reached⟩ := reaches rfl changed
      refine ih swept (Nat.lt_of_lt_of_le (countP_lt ?_ (sameKeys ▸ member) ?_ ?_) (Nat.le_of_lt_succ enough))
      · intro other _ outside
        exact decide_eq_true fun old => of_decide_eq_true outside (grows old)
      · exact decide_eq_false (not_not_intro reached)
      · exact decide_eq_true fresh

lemma markBelow_settles (enters : V → Bool) (origin : Table K V) (start : K) :
    let after := markBelow parent visit enters origin start
    Marking parent visit enters origin start ⟨after.1, after.2, false⟩ ∧
      ∀ key ∈ origin.keys, Settled parent visit enters origin after.1 after.2 key := by
  have initial : Marking parent visit enters origin start ⟨origin, [start], false⟩ := by
    refine ⟨rfl, by simp, ?_, ?_, fun key => .inl rfl⟩
    · intro key member
      obtain rfl := mem_singleton.mp member
      exact .start
    · intro key member different
      exact absurd (mem_singleton.mp member) different
  exact markLoop_settles keepsParent idempotent initial (Nat.lt_succ_of_le countP_le_length)

lemma mem_markBelow_iff (key : K) :
    key ∈ (markBelow parent visit enters origin start).2 ↔ Reached parent visit enters origin start key := by
  obtain ⟨marking, settled⟩ := markBelow_settles keepsParent idempotent enters origin start
  refine ⟨marking.sound key, ?_⟩
  intro reached
  induction reached with
  | start => exact marking.start_known
  | @child key above value at_ link _ admitted ih =>
    refine (settled key (Table.mem_keys_iff.mpr ⟨value, at_⟩)).resolve_right ?_
    intro visits
    exact absurd admitted (by simp [(visits value above at_ link ih).2])

lemma lookup_markBelow_of_touched (touched : Touched parent visit enters origin start key) :
    (markBelow parent visit enters origin start).1.lookup key = (origin.lookup key).map visit := by
  obtain ⟨marking, settled⟩ := markBelow_settles keepsParent idempotent enters origin start
  obtain ⟨different, value, above, at_, link, reached⟩ := touched
  have upper := (mem_markBelow_iff keepsParent idempotent above).mpr reached
  rcases settled key (Table.mem_keys_iff.mpr ⟨value, at_⟩) with member | visits
  · exact marking.marked key member different
  · exact (visits value above at_ link upper).1

lemma lookup_markBelow_of_untouched (untouched : ¬ Touched parent visit enters origin start key) :
    (markBelow parent visit enters origin start).1.lookup key = origin.lookup key := by
  obtain ⟨marking, -⟩ := markBelow_settles keepsParent idempotent enters origin start
  exact (marking.lookups key).resolve_right fun visited => untouched visited.1

end Loop

end Marking

end ParentTree

end Dilithion.Lib
