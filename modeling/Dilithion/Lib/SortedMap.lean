import Dilithion.Lib.Lists

/-! Sets kept in the order of a comparison function, first element first. Two items neither of which
comes before the other count as the same item: the second is not inserted, and erasing either erases
both. Where the comparison is a strict total order these are the usual set operations. -/

namespace Dilithion.Lib.OrderedSet

open List

variable {A : Type} (before : A → A → Bool)

def insert (item : A) : List A → List A
  | [] => [item]
  | head :: rest =>
    if before item head then item :: head :: rest
    else if before head item then head :: insert item rest
    else head :: rest

def erase (item : A) (items : List A) : List A :=
  items.filter fun other => before item other || before other item

structure StrictOn (domain : A → Prop) : Prop where
  irrefl : ∀ a, before a a = false
  trans : ∀ a b c, domain a → domain b → domain c → before a b = true → before b c = true → before a c = true
  connected : ∀ a b, domain a → domain b → before a b = false → before b a = false → a = b

variable {before} {domain : A → Prop} {item : A} {items : List A}

lemma StrictOn.of_key {L : Type} [LinearOrder L] (key : A → L) (compares : ∀ a b, before a b = true ↔ key a < key b)
    (apart : ∀ a b, domain a → domain b → key a = key b → a = b) : StrictOn before domain where
  irrefl a := by
    rw [← Bool.not_eq_true, compares]
    exact lt_irrefl _
  trans a b c _ _ _ first second := by
    rw [compares] at first second ⊢
    exact lt_trans first second
  connected a b inA inB first second := by
    rw [← Bool.not_eq_true, compares] at first second
    exact apart a b inA inB (le_antisymm (not_lt.mp second) (not_lt.mp first))

section

variable (strict : StrictOn before domain)

include strict

lemma mem_insert (inside : domain item) (members : ∀ a ∈ items, domain a) (other : A) :
    other ∈ insert before item items ↔ other = item ∨ other ∈ items := by
  induction items with
  | nil => simp [insert]
  | cons head rest ih =>
    have headIn := members head mem_cons_self
    unfold insert
    split
    · simp
    · split
      · rw [mem_cons, ih fun a member => members a (mem_cons_of_mem _ member), mem_cons]
        exact ⟨fun h => h.elim (.inr ∘ .inl) (Or.imp_right .inr), fun h => h.elim (.inr ∘ .inl) (Or.imp_right .inr)⟩
      · rename_i notBefore notAfter
        have same := strict.connected item head inside headIn (by simpa using notBefore) (by simpa using notAfter)
        subst same
        simp

lemma sorted_insert (inside : domain item) (members : ∀ a ∈ items, domain a)
    (sorted : items.Pairwise fun a b => before a b = true) :
    (insert before item items).Pairwise fun a b => before a b = true := by
  induction items with
  | nil => simp [insert]
  | cons head rest ih =>
    have headIn := members head mem_cons_self
    have restIn : ∀ a ∈ rest, domain a := fun a member => members a (mem_cons_of_mem _ member)
    obtain ⟨headFirst, restSorted⟩ := pairwise_cons.mp sorted
    unfold insert
    split
    · rename_i first
      refine pairwise_cons.mpr ⟨?_, sorted⟩
      intro other member
      rcases mem_cons.mp member with rfl | later
      · exact first
      · exact strict.trans item head other inside headIn (restIn other later) first (headFirst other later)
    · split
      · rename_i after
        refine pairwise_cons.mpr ⟨?_, ih restIn restSorted⟩
        intro other member
        rcases (mem_insert strict inside restIn other).mp member with rfl | later
        · exact after
        · exact headFirst other later
      · exact sorted

lemma foldl_insert {added : List A} (addedIn : ∀ a ∈ added, domain a)
    (members : ∀ a ∈ items, domain a) (sorted : items.Pairwise fun a b => before a b = true) :
    let after := added.foldl (fun items item => insert before item items) items
    after.Pairwise (fun a b => before a b = true) ∧ ∀ other, other ∈ after ↔ other ∈ added ∨ other ∈ items := by
  induction added generalizing items with
  | nil => exact ⟨sorted, by simp⟩
  | cons head rest ih =>
    have headIn := addedIn head mem_cons_self
    have inserted := mem_insert strict headIn members
    have stillIn : ∀ a ∈ insert before head items, domain a := by
      intro a member
      rcases (inserted a).mp member with rfl | old
      · exact headIn
      · exact members a old
    obtain ⟨sortedAfter, memberAfter⟩ :=
      ih (fun a member => addedIn a (mem_cons_of_mem _ member)) stillIn (sorted_insert strict headIn members sorted)
    refine ⟨sortedAfter, fun other => ?_⟩
    rw [foldl_cons, memberAfter, inserted, mem_cons]
    exact or_left_comm.trans or_assoc.symm

lemma mem_erase (inside : domain item) (members : ∀ a ∈ items, domain a) (other : A) :
    other ∈ erase before item items ↔ other ≠ item ∧ other ∈ items := by
  rw [erase, mem_filter, and_comm]
  refine and_congr_left fun member => ?_
  constructor
  · rintro apart rfl
    simp [strict.irrefl] at apart
  · intro different
    cases first : before item other with
    | true => rfl
    | false =>
      cases second : before other item with
      | true => rfl
      | false => exact absurd (strict.connected other item (members other member) inside second first) different

end

lemma sorted_erase (sorted : items.Pairwise fun a b => before a b = true) :
    (erase before item items).Pairwise fun a b => before a b = true :=
  sorted.filter _

lemma erase_insert (strict : StrictOn before domain) (inside : domain item) (members : ∀ a ∈ items, domain a)
    (sorted : items.Pairwise fun a b => before a b = true) (absent : item ∉ items) :
    erase before item (insert before item items) = items := by
  have wider : ∀ a ∈ insert before item items, domain a := by
    intro a member
    rcases (mem_insert strict inside members a).mp member with rfl | old
    · exact inside
    · exact members a old
  have distinct {list : List A} (sortedList : list.Pairwise fun a b => before a b = true) : list.Nodup :=
    sortedList.imp fun less same => by simp [same, strict.irrefl] at less
  have sortedAfter : (erase before item (insert before item items)).Pairwise fun a b => before a b = true :=
    sorted_erase (sorted_insert strict inside members sorted)
  have perm : (erase before item (insert before item items)).Perm items := by
    refine (perm_ext_iff_of_nodup (distinct sortedAfter) (distinct sorted)).mpr fun other => ?_
    rw [mem_erase strict inside wider, mem_insert strict inside members]
    constructor
    · rintro ⟨apart, rfl | old⟩
      · exact absurd rfl apart
      · exact old
    · exact fun old => ⟨fun same => absent (same ▸ old), .inr old⟩
  refine perm.eq_of_pairwise (fun a b _ inItems less greater => ?_) sortedAfter sorted
  have domainB := members b inItems
  have domainA := members a (perm.subset ‹_›)
  exact absurd (strict.trans a b a domainA domainB domainA less greater) (by simp [strict.irrefl])

/-- In a sorted list the first element of least value comes before the others of that value. -/
lemma argmin_first [DecidableEq A] {R : A → A → Prop} (sorted : items.Pairwise R) {value : A → Nat} {least other : A}
    (picked : items.argmin value = some least) (member : other ∈ items) (equal : value other ≤ value least) :
    other = least ∨ R least other := by
  obtain ⟨inside, -, first⟩ := argmin_eq_some_iff.mp picked
  by_cases same : other = least
  · exact .inl same
  · have early := first other member equal
    have apart : items.idxOf least ≠ items.idxOf other := fun at_ => same ((idxOf_inj inside).mp at_).symm
    have before := pairwise_iff_getElem.mp sorted _ _ (idxOf_lt_length_of_mem inside)
      (idxOf_lt_length_of_mem member) (lt_of_le_of_ne early apart)
    rw [getElem_idxOf, getElem_idxOf] at before
    exact .inr before

end Dilithion.Lib.OrderedSet

namespace Dilithion.Lib

open List

structure SortedMap (K V : Type) [LinearOrder K] where
  entries : List (K × V)
  sorted : entries.Pairwise fun first second => first.1 < second.1

namespace SortedMap

variable {K V : Type} [LinearOrder K]

instance [DecidableEq V] : DecidableEq (SortedMap K V) := fun first second =>
  decidable_of_iff (first.entries = second.entries) (by cases first; cases second; simp)

def empty : SortedMap K V := ⟨[], List.Pairwise.nil⟩

def find (map : SortedMap K V) (key : K) : Option V :=
  (map.entries.find? fun entry => decide (entry.1 = key)).map Prod.snd

def insertEntry (key : K) (value : V) : List (K × V) → List (K × V)
  | [] => [(key, value)]
  | entry :: rest =>
    if entry.1 < key then entry :: insertEntry key value rest
    else if entry.1 = key then (key, value) :: rest
    else (key, value) :: entry :: rest

variable {key : K} {value : V} {entries : List (K × V)}

section

variable (sorted : entries.Pairwise fun first second => first.1 < second.1)

include sorted

lemma insertEntry_eq : insertEntry key value entries =
    entries.filter (fun entry => decide (entry.1 < key)) ++ (key, value) :: entries.filter fun entry =>
      decide (key < entry.1) := by
  induction entries with
  | nil => rfl
  | cons entry rest ih =>
    obtain ⟨above, sortedRest⟩ := pairwise_cons.mp sorted
    rw [insertEntry, ih sortedRest]
    split
    case isTrue below => simp [below, below.le]
    case isFalse notBelow =>
      have apart : ∀ other ∈ rest, key < other.1 := fun other inside =>
        lt_of_le_of_lt (not_lt.mp notBelow) (above other inside)
      have none : rest.filter (fun other => decide (other.1 < key)) = [] :=
        filter_eq_nil_iff.mpr fun other inside => by simpa using (apart other inside).le
      have all : rest.filter (fun other => decide (key < other.1)) = rest :=
        filter_eq_self.mpr fun other inside => by simpa using apart other inside
      split
      case isTrue same => simp [same, none, all]
      case isFalse different => simp [notBelow, none, all, lt_of_le_of_ne (not_lt.mp notBelow) (Ne.symm different)]

lemma mem_insertEntry (item : K × V) :
    item ∈ insertEntry key value entries ↔ item = (key, value) ∨ item.1 ≠ key ∧ item ∈ entries := by
  rw [insertEntry_eq sorted, mem_append, mem_cons, mem_filter, mem_filter, or_left_comm, ← and_or_left,
    and_comm, ne_iff_lt_or_gt]
  simp

lemma sorted_insertEntry : (insertEntry key value entries).Pairwise fun first second => first.1 < second.1 := by
  rw [insertEntry_eq sorted, pairwise_append, pairwise_cons]
  refine ⟨sorted.filter _, ⟨by simp, sorted.filter _⟩, fun first below second above => ?_⟩
  have low : first.1 < key := by simpa using (mem_filter.mp below).2
  rcases mem_cons.mp above with rfl | above
  · exact low
  · exact low.trans (by simpa using (mem_filter.mp above).2)

end

def insert (map : SortedMap K V) (key : K) (value : V) : SortedMap K V :=
  ⟨insertEntry key value map.entries, sorted_insertEntry map.sorted⟩

def erase (map : SortedMap K V) (key : K) : SortedMap K V :=
  ⟨map.entries.filter fun entry => decide (entry.1 ≠ key), map.sorted.filter _⟩

def mapValues {W : Type} (f : V → W) (map : SortedMap K V) : SortedMap K W :=
  ⟨map.entries.map fun entry => (entry.1, f entry.2), List.pairwise_map.mpr map.sorted⟩

def range (map : SortedMap K V) (low high : K) : List (K × V) :=
  (map.entries.dropWhile fun entry => decide (entry.1 < low)).takeWhile fun entry => decide (entry.1 ≤ high)

instance : Membership (K × V) (SortedMap K V) := ⟨fun map item => item ∈ map.entries⟩

lemma mem_def (map : SortedMap K V) (item : K × V) : item ∈ map ↔ item ∈ map.entries := Iff.rfl

@[simp] lemma not_mem_empty (item : K × V) : item ∉ (empty : SortedMap K V) := not_mem_nil

variable {map : SortedMap K V}

lemma eq_of_mem {first second : V} (one : (key, first) ∈ map) (other : (key, second) ∈ map) : first = second := by
  have distinct : (map.entries.map Prod.fst).Nodup := pairwise_map.mpr (map.sorted.imp ne_of_lt)
  exact (Prod.mk.inj (inj_on_of_nodup_map distinct one other rfl)).2

lemma find_eq_some_iff : map.find key = some value ↔ (key, value) ∈ map := by
  unfold find
  rw [Option.map_eq_some_iff]
  constructor
  · rintro ⟨⟨found, same⟩, isFound, rfl⟩
    have isKey := find?_some isFound
    simp only [decide_eq_true_eq] at isKey
    exact isKey ▸ mem_of_find?_eq_some isFound
  · intro member
    cases search : map.entries.find? fun entry => decide (entry.1 = key) with
    | none =>
      have absent := find?_eq_none.mp search (key, value) member
      simp at absent
    | some entry =>
      have isKey := find?_some search
      simp only [decide_eq_true_eq] at isKey
      have inside : (key, entry.2) ∈ map := isKey ▸ mem_of_find?_eq_some search
      exact ⟨entry, rfl, eq_of_mem inside member⟩

lemma find_eq_none_iff : map.find key = none ↔ ∀ value, (key, value) ∉ map := by
  constructor
  · intro absent value member
    rw [find_eq_some_iff.mpr member] at absent
    cases absent
  · intro absent
    cases found : map.find key with
    | none => rfl
    | some value => exact absurd (find_eq_some_iff.mp found) (absent value)

lemma mem_insert {item : K × V} : item ∈ map.insert key value ↔ item = (key, value) ∨ item.1 ≠ key ∧ item ∈ map :=
  mem_insertEntry map.sorted item

lemma insert_mono {wider : SortedMap K V} (narrower : ∀ item ∈ map, item ∈ wider) :
    ∀ item ∈ map.insert key value, item ∈ wider.insert key value := by
  intro item inside
  exact mem_insert.mpr ((mem_insert.mp inside).imp_right fun ⟨apart, old⟩ => ⟨apart, narrower item old⟩)

lemma mem_erase {item : K × V} : item ∈ map.erase key ↔ item.1 ≠ key ∧ item ∈ map := by
  unfold erase
  rw [mem_def, mem_filter, decide_eq_true_eq, and_comm]
  rfl

lemma find_insert (map : SortedMap K V) (key other : K) (value : V) :
    (map.insert key value).find other = if other = key then some value else map.find other := by
  refine Option.ext fun found => ?_
  rw [find_eq_some_iff, mem_insert]
  by_cases same : other = key
  · simp [same, eq_comm]
  · simp [same, find_eq_some_iff]

lemma find_erase (map : SortedMap K V) (key other : K) :
    (map.erase key).find other = if other = key then none else map.find other := by
  refine Option.ext fun found => ?_
  rw [find_eq_some_iff, mem_erase]
  by_cases same : other = key
  · simp [same]
  · simp [same, find_eq_some_iff]

lemma mem_mapValues {W : Type} {f : V → W} {mapped : W} :
    (key, mapped) ∈ map.mapValues f ↔ ∃ value, (key, value) ∈ map ∧ f value = mapped := by
  unfold mapValues
  rw [mem_def, mem_map]
  constructor
  · rintro ⟨⟨found, value⟩, inside, same⟩
    cases same
    exact ⟨value, inside, rfl⟩
  · rintro ⟨value, inside, rfl⟩
    exact ⟨(key, value), inside, rfl⟩

lemma range_eq_filter (map : SortedMap K V) (low high : K) :
    map.range low high = map.entries.filter fun entry => decide (low ≤ entry.1) && decide (entry.1 ≤ high) := by
  have below : map.entries.Pairwise fun first second => decide (second.1 < low) = true →
      decide (first.1 < low) = true :=
    map.sorted.imp fun less => by simpa using less.trans
  have inside : map.entries.Pairwise fun first second => decide (second.1 ≤ high) = true →
      decide (first.1 ≤ high) = true :=
    map.sorted.imp fun less => by simpa using less.le.trans
  unfold range
  rw [(span_eq_filter below).2, (span_eq_filter (inside.filter _)).1, filter_filter]
  refine filter_congr fun entry _ => ?_
  rw [Bool.and_comm, ← decide_not, decide_eq_decide.mpr not_lt]

lemma range_erase_of_lt {high : K} (above : high < key) (low : K) :
    (map.erase key).range low high = map.range low high := by
  rw [range_eq_filter, range_eq_filter, erase, filter_filter]
  refine filter_congr fun entry _ => ?_
  by_cases inside : entry.1 ≤ high
  · have apart : entry.1 ≠ key := ne_of_lt (lt_of_le_of_lt inside above)
    simp [inside, apart]
  · simp [inside]

lemma nodup_entries (map : SortedMap K V) : map.entries.Nodup := by
  refine map.sorted.imp fun below same => ?_
  rw [same] at below
  exact lt_irrefl _ below

lemma ext_mem {first second : SortedMap K V} (same : ∀ item, item ∈ first ↔ item ∈ second) : first = second := by
  have perm : first.entries.Perm second.entries :=
    (perm_ext_iff_of_nodup first.nodup_entries second.nodup_entries).mpr same
  have equal : first.entries = second.entries :=
    perm.eq_of_pairwise (fun one other _ _ below above => absurd (lt_trans below above) (lt_irrefl _))
      first.sorted second.sorted
  cases first
  congr

lemma erase_insert_of_absent (absent : map.find key = none) (value : V) : (map.insert key value).erase key = map := by
  refine ext_mem fun item => ?_
  rw [mem_erase, mem_insert]
  constructor
  · rintro ⟨apart, rfl | ⟨-, inside⟩⟩
    · exact absurd rfl apart
    · exact inside
  · intro inside
    have apart : item.1 ≠ key := fun same => find_eq_none_iff.mp absent item.2 (same ▸ inside)
    exact ⟨apart, .inr ⟨apart, inside⟩⟩

lemma erase_of_absent (absent : ∀ value, (key, value) ∉ map) : map.erase key = map := by
  refine ext_mem fun item => ?_
  rw [mem_erase]
  exact ⟨And.right, fun inside => ⟨fun same => absent item.2 (same ▸ inside), inside⟩⟩

lemma insert_perm (absent : map.find key = none) (value : V) :
    (map.insert key value).entries.Perm ((key, value) :: map.entries) := by
  have fresh : (key, value) ∉ map.entries := find_eq_none_iff.mp absent value
  refine (perm_ext_iff_of_nodup (nodup_entries _) (nodup_cons.mpr ⟨fresh, map.nodup_entries⟩)).mpr fun item => ?_
  rw [← mem_def, mem_insert, mem_cons]
  constructor
  · rintro (same | ⟨-, inside⟩)
    · exact .inl same
    · exact .inr inside
  · rintro (same | inside)
    · exact .inl same
    · exact .inr ⟨fun same => find_eq_none_iff.mp absent item.2 (same ▸ inside), inside⟩

lemma perm_erase (present : (key, value) ∈ map) : map.entries.Perm ((key, value) :: (map.erase key).entries) := by
  have gone : (key, value) ∉ (map.erase key).entries := fun inside => (mem_erase.mp inside).1 rfl
  refine (perm_ext_iff_of_nodup map.nodup_entries (nodup_cons.mpr ⟨gone, nodup_entries _⟩)).mpr fun item => ?_
  rw [mem_cons, ← mem_def (map.erase key), mem_erase]
  constructor
  · intro inside
    by_cases same : item.1 = key
    · refine .inl (Prod.ext same ?_)
      exact eq_of_mem (show (key, item.2) ∈ map from same ▸ inside) present
    · exact .inr ⟨same, inside⟩
  · rintro (rfl | ⟨-, inside⟩)
    · exact present
    · exact inside

def weight (measure : V → Nat) (map : SortedMap K V) : Nat := (map.entries.map fun entry => measure entry.2).sum

/-- A map with a key to spare in a wider one has the weight of its value to spare. -/
lemma weight_add_le {wider : SortedMap K V} (narrower : ∀ item, item ∈ map → item ∈ wider)
    (member : (key, value) ∈ wider) (absent : map.find key = none) (measure : V → Nat) :
    map.weight measure + measure value ≤ wider.weight measure := by
  have inside : ((key, value) :: map.entries).Subperm wider.entries := by
    refine subperm_of_subset (nodup_cons.mpr ⟨find_eq_none_iff.mp absent value, map.nodup_entries⟩) fun item found => ?_
    rcases mem_cons.mp found with rfl | old
    · exact member
    · exact narrower item old
  obtain ⟨chosen, perm, sublist⟩ := inside
  have total : (chosen.map fun entry => measure entry.2).sum = measure value + map.weight measure :=
    (perm.map fun entry => measure entry.2).sum_eq
  have bound := (sublist.map fun entry => measure entry.2).sum_le_sum fun _ _ => Nat.zero_le _
  rw [total] at bound
  rw [Nat.add_comm]
  exact bound

end SortedMap

open SortedMap

structure CachedStore (K V : Type) [LinearOrder K] where
  stored : SortedMap K V
  cache : SortedMap K V
  faithful : ∀ item ∈ cache, item ∈ stored

namespace CachedStore

variable {K V : Type} [LinearOrder K]

def empty : CachedStore K V := ⟨.empty, .empty, fun _ inside => inside⟩

/-- The first half of a cache that is too large goes. Without a bound nothing does. -/
def makeRoom (bound : Option Nat) (cache : SortedMap K V) : SortedMap K V :=
  if bound.any fun size => decide (size < cache.entries.length) then
    ⟨cache.entries.drop (cache.entries.length / 2), cache.sorted.sublist (List.drop_sublist _ _)⟩
  else cache

lemma mem_of_mem_makeRoom {bound : Option Nat} {cache : SortedMap K V} {item : K × V}
    (inside : item ∈ makeRoom bound cache) :
    item ∈ cache := by
  unfold makeRoom at inside
  split at inside
  · exact List.mem_of_mem_drop inside
  · exact inside

def fill (bound : Option Nat) (store : CachedStore K V) (key : K) (value : V) (isStored : (key, value) ∈ store.stored) :
    CachedStore K V where
  stored := store.stored
  cache := (makeRoom bound store.cache).insert key value
  faithful := by
    intro item inside
    rcases mem_insert.mp inside with rfl | ⟨-, cached⟩
    · exact isStored
    · exact store.faithful item (mem_of_mem_makeRoom cached)

def get (bound : Option Nat) (store : CachedStore K V) (key : K) : Option V × CachedStore K V :=
  match store.cache.find key with
  | some value => (some value, store)
  | none =>
    match found : store.stored.find key with
    | none => (none, store)
    | some value => (some value, store.fill bound key value (find_eq_some_iff.mp found))

def has (store : CachedStore K V) (key : K) : Bool := (store.cache.find key).isSome || (store.stored.find key).isSome

def add (bound : Option Nat) (store : CachedStore K V) (key : K) (value : V) : Bool × CachedStore K V :=
  match store.cache.find key with
  | some _ => (false, store)
  | none =>
    match found : store.stored.find key with
    | some existing => (false, store.fill bound key existing (find_eq_some_iff.mp found))
    | none =>
      (true,
        { stored := store.stored.insert key value
          cache := (makeRoom bound store.cache).insert key value
          faithful := insert_mono fun item cached => store.faithful item (mem_of_mem_makeRoom cached) })

def put (store : CachedStore K V) (key : K) (value : V) : CachedStore K V where
  stored := store.stored.insert key value
  cache := store.cache.insert key value
  faithful := insert_mono store.faithful

def remove (store : CachedStore K V) (key : K) : Bool × CachedStore K V :=
  match store.stored.find key with
  | none => (false, store)
  | some _ =>
    (true,
      { stored := store.stored.erase key
        cache := store.cache.erase key
        faithful := by
          intro item inside
          obtain ⟨apart, cached⟩ := mem_erase.mp inside
          exact mem_erase.mpr ⟨apart, store.faithful item cached⟩ })

def reopen (store : CachedStore K V) : CachedStore K V := ⟨store.stored, .empty, by simp⟩

variable (bound : Option Nat) (store : CachedStore K V) (key : K)

lemma stored_of_cached {value : V} (cached : store.cache.find key = some value) : store.stored.find key = some value :=
  find_eq_some_iff.mpr (store.faithful _ (find_eq_some_iff.mp cached))

@[simp] lemma get_fst : (store.get bound key).1 = store.stored.find key := by
  unfold get
  split
  case h_1 value cached => exact (stored_of_cached store key cached).symm
  case h_2 =>
    split
    case h_1 absent => exact absent.symm
    case h_2 value found => exact found.symm

@[simp] lemma stored_get : (store.get bound key).2.stored = store.stored := by
  unfold get
  split
  · rfl
  · split <;> rfl

lemma has_eq : store.has key = (store.stored.find key).isSome := by
  unfold has
  cases cached : store.cache.find key with
  | none => simp
  | some value => simp [stored_of_cached store key cached]

lemma stored_add (value : V) :
    (store.add bound key value).2.stored =
      if (store.stored.find key).isSome then store.stored else store.stored.insert key value := by
  unfold add
  split
  case h_1 existing cached => simp [stored_of_cached store key cached]
  case h_2 =>
    split
    case h_1 existing found => exact (if_pos (Option.isSome_iff_exists.mpr ⟨existing, found⟩)).symm
    case h_2 absent => exact (if_neg (by simp [absent])).symm

@[simp] lemma stored_remove : (store.remove key).2.stored = store.stored.erase key := by
  unfold remove
  split
  case h_1 absent => exact (erase_of_absent (find_eq_none_iff.mp absent)).symm
  case h_2 => rfl

end CachedStore

end Dilithion.Lib
