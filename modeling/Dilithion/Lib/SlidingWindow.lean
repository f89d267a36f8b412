import Dilithion.Lib.Lists

/-! A window of the newest entries of a stack. Entries are recorded at the heights of their seats, and an
entry is evicted for good when one is recorded `width` above it; withdrawing the top of the stack only
takes entries off the end. So the window shows the newest entries just when no eviction came too early
or is still due. -/

namespace Dilithion.Lib.SlidingWindow

open List Option

variable {ι : Type}

/-- A place in the stack: its height, the entry if it has one, and the height of the highest entry
recorded since. -/
structure Seat (ι : Type) where
  height : Int
  entry : Option ι
  peak : Int

/-- The stack with one more seat on top; seats are listed from the top down. -/
def push (seats : List (Seat ι)) : Option ι → List (Seat ι)
  | none => ⟨seats.length, none, 0⟩ :: seats
  | some entry =>
    ⟨seats.length, some entry, seats.length⟩ :: seats.map fun seat => { seat with peak := max seat.peak seats.length }

def record (width height : Int) (entry : ι) (window : List (Int × ι)) : List (Int × ι) :=
  (window ++ [(height, entry)]).dropWhile fun item => decide (item.1 ≤ height - width)

def withdraw (height : Int) (window : List (Int × ι)) : List (Int × ι) :=
  (window.reverse.dropWhile fun item => decide (height ≤ item.1)).reverse

namespace Seat

variable (width : Int)

def evicted (seat : Seat ι) : Bool := decide (seat.height + width ≤ seat.peak)

/-- The height is below those of the window that ends at `tip`. -/
def outside (tip : Int) (seat : Seat ι) : Bool := decide (seat.height + width ≤ tip)

def item (gone : Bool) (seat : Seat ι) : Option (Int × ι) :=
  if gone then none else seat.entry.map fun entry => (seat.height, entry)

end Seat

def kept (width : Int) (seats : List (Seat ι)) : List (Int × ι) :=
  (seats.filterMap fun seat => seat.item (seat.evicted width)).reverse

def recent (width : Int) (seats : List (Seat ι)) : List (Int × ι) :=
  (seats.filterMap fun seat => seat.item (seat.outside width (seats.length - 1))).reverse

/-- Heights count up from zero, and lower seats have seen at least what higher ones have. -/
def Stacked : List (Seat ι) → Prop
  | [] => True
  | seat :: below =>
    seat.height = below.length ∧ 0 ≤ seat.peak ∧ (∀ lower ∈ below, seat.peak ≤ lower.peak) ∧ Stacked below

variable {seats : List (Seat ι)}

section

variable (stacked : Stacked seats)

include stacked

lemma Stacked.height_lt {seat : Seat ι} (member : seat ∈ seats) : seat.height < seats.length := by
  induction seats with
  | nil => cases member
  | cons top below ih =>
    obtain ⟨height, -, -, rest⟩ := stacked
    rcases mem_cons.mp member with rfl | deeper
    · rw [length_cons]
      omega
    · have lower := ih rest deeper
      rw [length_cons]
      omega

lemma Stacked.peak_nonneg {seat : Seat ι} (member : seat ∈ seats) : 0 ≤ seat.peak := by
  induction seats with
  | nil => cases member
  | cons top below ih =>
    obtain ⟨-, nonneg, -, rest⟩ := stacked
    rcases mem_cons.mp member with rfl | deeper
    · exact nonneg
    · exact ih rest deeper

lemma Stacked.peak_le {upper lower : Seat ι} (isUpper : upper ∈ seats)
    (isLower : lower ∈ seats) (below : lower.height < upper.height) : upper.peak ≤ lower.peak := by
  induction seats with
  | nil => cases isUpper
  | cons top rest ih =>
    obtain ⟨height, -, peaks, stackedRest⟩ := stacked
    rcases mem_cons.mp isLower with rfl | deeper
    · -- Nothing is above the top.
      rcases mem_cons.mp isUpper with rfl | other
      · omega
      · have := stackedRest.height_lt other
        omega
    · rcases mem_cons.mp isUpper with rfl | other
      · exact peaks lower deeper
      · exact ih stackedRest other deeper

lemma Stacked.raise (height : Int) : Stacked (seats.map fun seat => { seat with peak := max seat.peak height }) := by
  induction seats with
  | nil => trivial
  | cons top below ih =>
    obtain ⟨isHeight, nonneg, peaks, rest⟩ := stacked
    refine ⟨by simpa using isHeight, by dsimp only; omega, fun lower member => ?_, ih rest⟩
    obtain ⟨seat, inside, rfl⟩ := mem_map.mp member
    have above := peaks seat inside
    dsimp only
    omega

lemma Stacked.push (entry : Option ι) : Stacked (push seats entry) := by
  cases entry with
  | none => exact ⟨rfl, Int.le_refl 0, fun lower member => stacked.peak_nonneg member, stacked⟩
  | some entry =>
    refine ⟨by simp, Int.natCast_nonneg _, fun lower member => ?_, stacked.raise _⟩
    obtain ⟨seat, -, rfl⟩ := mem_map.mp member
    exact Int.le_max_right _ _

lemma Stacked.pop : Stacked seats.tail := by
  cases seats with
  | nil => trivial
  | cons top below => exact stacked.2.2.2

end

def Timely (width : Int) (seats : List (Seat ι)) : Prop :=
  ∀ seat ∈ seats, seat.entry ≠ none → seat.evicted width = seat.outside width (seats.length - 1)

instance [DecidableEq ι] (width : Int) (seats : List (Seat ι)) : Decidable (Timely width seats) :=
  inferInstanceAs (Decidable (∀ seat ∈ seats, seat.entry ≠ none →
    seat.evicted width = seat.outside width (seats.length - 1)))

variable {width : Int}

lemma kept_eq_recent (timely : Timely width seats) : kept width seats = recent width seats := by
  unfold kept recent
  congr 1
  refine filterMap_congr fun seat member => ?_
  cases entry : seat.entry with
  | none => simp [Seat.item, entry]
  | some found => rw [timely seat member (by simp [entry])]

variable {item : Int × ι}

lemma item_eq_some_iff {gone : Bool} {seat : Seat ι} :
    seat.item gone = some item ↔ gone = false ∧ seat.entry = some item.2 ∧ seat.height = item.1 := by
  unfold Seat.item
  cases gone with
  | true => simp
  | false =>
    obtain ⟨height, entry⟩ := item
    simp only [Bool.false_eq_true, if_false, map_eq_some_iff, Prod.mk.injEq, true_and]
    constructor
    · rintro ⟨found, isEntry, rfl, rfl⟩
      exact ⟨isEntry, rfl⟩
    · rintro ⟨isEntry, rfl⟩
      exact ⟨entry, isEntry, rfl, rfl⟩

lemma mem_kept_iff :
    item ∈ kept width seats ↔ ∃ seat ∈ seats, seat.evicted width = false ∧ seat.entry = some item.2 ∧
    seat.height = item.1 := by
  unfold kept
  rw [mem_reverse, mem_filterMap]
  exact exists_congr fun seat => and_congr_right fun _ => item_eq_some_iff

lemma Stacked.kept_sorted (stacked : Stacked seats) :
    (kept width seats).Pairwise fun older newer => older.1 < newer.1 := by
  unfold kept
  rw [pairwise_reverse]
  induction seats with
  | nil => exact List.Pairwise.nil
  | cons top below ih =>
    obtain ⟨height, -, -, rest⟩ := stacked
    rw [filterMap_cons]
    split
    · exact ih rest
    · rename_i item found
      refine pairwise_cons.mpr ⟨fun other member => ?_, ih rest⟩
      obtain ⟨seat, inside, -, -, isHeight⟩ := (mem_kept_iff.mp (mem_reverse.mpr member) : ∃ seat ∈ below, _)
      have lower := rest.height_lt inside
      obtain ⟨-, -, atTop⟩ := item_eq_some_iff.mp found
      omega

lemma kept_push_none (width : Int) (seats : List (Seat ι)) : kept width (push seats none) = kept width seats := by
  simp [kept, push, Seat.item]

lemma mem_kept_push_some {entry : ι} : item ∈ kept width (push seats (some entry)) ↔
    (item = ((seats.length : Int), entry) ∨ item ∈ kept width seats) ∧ (seats.length : Int) - width < item.1 := by
  obtain ⟨height, found⟩ := item
  simp only [mem_kept_iff, push, mem_cons, List.mem_map, Seat.evicted, decide_eq_false_iff_not,
    Int.not_le, Prod.mk.injEq]
  constructor
  · rintro ⟨seat, rfl | ⟨old, inside, rfl⟩, young, isEntry, rfl⟩
    · dsimp only at isEntry young ⊢
      exact ⟨.inl ⟨rfl, (some.inj isEntry).symm⟩, by omega⟩
    · dsimp only at isEntry young ⊢
      exact ⟨.inr ⟨old, inside, by omega, isEntry, rfl⟩, by omega⟩
  · rintro ⟨⟨rfl, rfl⟩ | ⟨old, inside, young, isEntry, rfl⟩, above⟩
    · exact ⟨_, .inl rfl, by dsimp only; omega, rfl, rfl⟩
    · exact ⟨_, .inr ⟨old, inside, rfl⟩, by dsimp only; omega, isEntry, rfl⟩

/-- Recording an entry evicts what is `width` below it. -/
lemma kept_push_some (positive : 0 < width) (stacked : Stacked seats) (entry : ι) :
    kept width (push seats (some entry)) = record width seats.length entry (kept width seats) := by
  have sorted : (kept width seats ++ [((seats.length : Int), entry)]).Pairwise fun first second =>
      decide (second.1 ≤ (seats.length : Int) - width) = true →
          decide (first.1 ≤ (seats.length : Int) - width) = true := by
    refine pairwise_append.mpr ⟨stacked.kept_sorted.imp fun below => ?_, pairwise_singleton _ _, ?_⟩
    · simp only [decide_eq_true_eq]
      omega
    · intro older _ newest member
      rw [mem_singleton.mp member]
      simp only [decide_eq_true_eq]
      omega
  have stays : (!decide ((seats.length : Int) ≤ seats.length - width)) = true := by simp; omega
  have newest : (⟨seats.length, some entry, seats.length⟩ : Seat ι).item
      ((⟨seats.length, some entry, seats.length⟩ : Seat ι).evicted width) = some ((seats.length : Int), entry) := by
    have inside : (⟨seats.length, some entry, seats.length⟩ : Seat ι).evicted width = false := by
      simp [Seat.evicted]
      omega
    rw [inside]
    rfl
  rw [record, (span_eq_filter sorted).2, filter_append, filter_singleton, kept, push, filterMap_cons, newest]
  simp only [stays, reverse_cons, kept]
  congr 1
  rw [filter_reverse, filter_filterMap, filterMap_map]
  congr 1
  refine filterMap_congr fun seat _ => ?_
  simp only [Function.comp, Seat.item, Seat.evicted]
  cases seat.entry with
  | none => simp
  | some found =>
    by_cases gone : seat.height + width ≤ seat.peak
    · have later : seat.height + width ≤ max seat.peak seats.length := by omega
      simp [gone, later]
    · by_cases leaves : seat.height + width ≤ seats.length
      · have later : seat.height + width ≤ max seat.peak seats.length := by omega
        have old : seat.height ≤ seats.length - width := by omega
        simp [gone, later, old, Option.filter]
      · have later : ¬ seat.height + width ≤ max seat.peak seats.length := by omega
        have young : (seats.length : Int) - width < seat.height := by omega
        simp [gone, later, young, Option.filter]

/-- Withdrawing takes the entry of the top seat, if it is still there. -/
lemma kept_pop {top : Seat ι} {below : List (Seat ι)} (stacked : Stacked (top :: below)) :
    kept width below = withdraw below.length (kept width (top :: below)) := by
  obtain ⟨height, -, -, rest⟩ := id stacked
  have sorted : (kept width (top :: below)).reverse.Pairwise fun first second =>
      decide ((below.length : Int) ≤ second.1) = true → decide ((below.length : Int) ≤ first.1) = true := by
    refine pairwise_reverse.mpr (stacked.kept_sorted.imp fun lower => ?_)
    simp only [decide_eq_true_eq]
    omega
  have stays : ∀ item ∈ kept width below, (!decide ((below.length : Int) ≤ item.1)) = true := by
    intro item member
    obtain ⟨seat, inside, -, -, isHeight⟩ := mem_kept_iff.mp member
    have lower := rest.height_lt inside
    simp only [Bool.not_eq_true', decide_eq_false_iff_not]
    omega
  rw [withdraw, (span_eq_filter sorted).2, filter_reverse, reverse_reverse, kept, kept, filterMap_cons]
  cases found : top.item (top.evicted width) with
  | none => exact (filter_eq_self.mpr stays).symm
  | some item =>
    have atTop : item.1 = below.length := (item_eq_some_iff.mp found).2.2.symm.trans height
    rw [reverse_cons, filter_append, filter_cons_of_neg (by simp [atTop]), filter_nil, append_nil]
    exact (filter_eq_self.mpr stays).symm

section

variable [DecidableEq ι]

def countOf (entry : ι) (items : List (Int × ι)) : Nat := items.countP fun item => item.2 = entry

lemma countOf_cons (entry : ι) (first : Int × ι) (rest : List (Int × ι)) :
    countOf entry (first :: rest) = if entry = first.2 then countOf entry rest + 1 else countOf entry rest := by
  by_cases same : entry = first.2
  · simp [same, countOf]
  · simp [same, Ne.symm same, countOf]

section

variable (entry : ι) (items : List (Int × ι))

include entry items

lemma countOf_reverse : countOf entry items.reverse = countOf entry items :=
  countP_reverse

lemma countOf_concat (last : Int × ι) :
    countOf entry (items ++ [last]) = if entry = last.2 then countOf entry items + 1 else countOf entry items := by
  rw [← countOf_reverse, reverse_append, reverse_singleton, singleton_append, countOf_cons, countOf_reverse]

lemma countOf_pos_iff : 0 < countOf entry items ↔ entry ∈ items.map Prod.snd := by
  simp [countOf, countP_pos_iff]

end

lemma countOf_filterMap (entry : ι) (gone : Seat ι → Bool) (seats : List (Seat ι)) :
    countOf entry (seats.filterMap fun seat => seat.item (gone seat)).reverse =
      seats.countP fun seat => !gone seat && decide (seat.entry = some entry) := by
  rw [countOf, countP_reverse, countP_filterMap]
  refine countP_congr fun seat _ => ?_
  cases isGone : gone seat <;> cases isEntry : seat.entry <;> simp [Seat.item, isEntry]

/-- If every entry is counted as often as it is recent, the window is timely. -/
lemma timely_of_counts {width : Int} {seats : List (Seat ι)} (stacked : Stacked seats)
    (counts : ∀ entry, countOf entry (kept width seats) = countOf entry (recent width seats)) : Timely width seats := by
  intro seat member hasEntry
  obtain ⟨entry, isEntry⟩ := ne_none_iff_exists'.mp hasEntry
  have same := counts entry
  rw [kept, recent, countOf_filterMap, countOf_filterMap] at same
  cases gone : seat.evicted width <;> cases isOutside : seat.outside width (seats.length - 1)
  case false.false | true.true => rfl
  case true.false =>
      -- The entry went too early. Whatever is outside went with it, so the window lacks entries and has none to spare.
      refine absurd same (Nat.ne_of_lt
        (countP_lt (fun other isOther shown => ?_) member (by simp [gone]) (by simp [isOutside, isEntry])))
      simp only [Bool.and_eq_true, Bool.not_eq_true', decide_eq_true_eq, Seat.evicted, Seat.outside,
        decide_eq_false_iff_not]
        at shown gone isOutside ⊢
      refine ⟨fun outside => shown.1 ?_, shown.2⟩
      have seen := stacked.peak_le member isOther (by omega)
      omega
  case false.true =>
      -- The entry is still there. Then nothing above it has gone, so the window has entries to spare and lacks none.
      refine absurd same.symm (Nat.ne_of_lt
        (countP_lt (fun other isOther shown => ?_) member (by simp [isOutside]) (by simp [gone, isEntry])))
      simp only [Bool.and_eq_true, Bool.not_eq_true', decide_eq_true_eq, Seat.evicted, Seat.outside,
        decide_eq_false_iff_not]
        at shown gone isOutside ⊢
      refine ⟨fun evicted => ?_, shown.2⟩
      have seen := stacked.peak_le isOther member (by omega)
      omega

end

end Dilithion.Lib.SlidingWindow
