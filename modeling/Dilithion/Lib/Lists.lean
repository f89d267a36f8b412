import Mathlib

/-! Lists as histories: what holds at each step of one, and where it may be cut. -/

namespace Dilithion.Lib

open List

variable {A : Type} {holds : List A → A → Prop} {first second history : List A} {op : A}

def EachStep (holds : List A → A → Prop) (history : List A) : Prop :=
  ∀ earlier op later, history = earlier ++ op :: later → holds earlier op

namespace EachStep

lemma nil : EachStep holds [] := by
  intro earlier op later split
  simp at split

/-- What holds of the steps of a history holds of those at its front. -/
lemma front (each : EachStep holds (first ++ second)) : EachStep holds first := by
  intro earlier op later split
  refine each earlier op (later ++ second) ?_
  rw [split, append_assoc, cons_append]

lemma last (each : EachStep holds (history ++ [op])) : holds history op := each history op [] rfl

lemma concat (each : EachStep holds history) (holdsLast : holds history op) : EachStep holds (history ++ [op]) := by
  intro earlier middle later split
  rcases eq_nil_or_concat later with rfl | ⟨before, final, rfl⟩
  · obtain ⟨rfl, same⟩ := append_inj' split rfl
    cases same
    exact holdsLast
  · rw [concat_eq_append, ← cons_append, ← append_assoc] at split
    obtain ⟨rfl, -⟩ := append_inj' split rfl
    exact each earlier middle before rfl

end EachStep

variable {α : Type} {items : List α}

lemma append_split {first second done rest : List α} {item : α} (split : first ++ second = done ++ item :: rest) :
    (∃ tail, first = done ++ item :: tail) ∨ ∃ more, done = first ++ more ∧ second = more ++ item :: rest := by
  rcases append_eq_append_iff.mp split with ⟨more, isDone, isSecond⟩ | ⟨tail, isFirst, isRest⟩
  · exact .inr ⟨more, isDone, isSecond⟩
  · cases tail with
    | nil => exact .inr ⟨[], by simpa using isFirst.symm, by simpa using isRest.symm⟩
    | cons head tail =>
      obtain ⟨rfl, -⟩ := cons.inj isRest
      exact .inl ⟨tail, isFirst⟩

/-- Where a list of pairs is cut, one pair has been reached or begun. -/
lemma flatMap_pair_split {β : Type} {opens closes : α → β} {done rest : List β} {item : β}
    (split : (items.flatMap fun each => [opens each, closes each]) = done ++ item :: rest) :
    ∃ before here after, items = before ++ here :: after ∧
      ((done = before.flatMap fun each => [opens each, closes each]) ∧ item = opens here ∨
        (done = (before.flatMap fun each => [opens each, closes each]) ++ [opens here]) ∧ item = closes here) := by
  induction items generalizing done with
  | nil => simp at split
  | cons first items ih =>
    rw [flatMap_cons] at split
    match done, split with
    | [], split => exact ⟨[], first, items, rfl, .inl ⟨rfl, (cons.inj split).1.symm⟩⟩
    | [opened], split =>
      obtain ⟨rfl, closing⟩ := cons.inj split
      exact ⟨[], first, items, rfl, .inr ⟨rfl, (cons.inj closing).1.symm⟩⟩
    | opened :: closed :: later, split =>
      obtain ⟨rfl, closing⟩ := cons.inj split
      obtain ⟨rfl, behind⟩ := cons.inj closing
      obtain ⟨before, here, after, rfl, reached⟩ := ih behind
      refine ⟨first :: before, here, after, rfl, reached.imp (fun at' => ⟨?_, at'.2⟩) fun at' => ⟨?_, at'.2⟩⟩
      · rw [at'.1, flatMap_cons]
        rfl
      · rw [at'.1, flatMap_cons]
        rfl

lemma countP_lt {few many : α → Bool} (wider : ∀ item ∈ items, few item = true → many item = true) {extra : α}
    (listed : extra ∈ items) (outside : few extra = false) (inside : many extra = true) :
    items.countP few < items.countP many := by
  obtain ⟨front, back, rfl⟩ := append_of_mem listed
  have before := countP_mono_left fun item member => wider item (mem_append_left _ member)
  have behind := countP_mono_left fun item member => wider item (mem_append_right _ (mem_cons_of_mem _ member))
  rw [countP_append, countP_append, countP_cons_of_neg (by simp [outside]), countP_cons_of_pos inside]
  omega

/-- In a list with all items of one kind first, what is taken or dropped by the kind is what it selects. -/
lemma span_eq_filter {gone : α → Bool}
    (sorted : items.Pairwise fun first second => gone second = true → gone first = true) :
    items.takeWhile gone = items.filter gone ∧ items.dropWhile gone = items.filter fun item => !gone item := by
  induction items with
  | nil => exact ⟨rfl, rfl⟩
  | cons first rest ih =>
    obtain ⟨here, behind⟩ := pairwise_cons.mp sorted
    by_cases leaves : gone first = true
    · simp [leaves, ih behind]
    · have stays : ∀ item ∈ rest, ¬ gone item = true := fun item member goes => leaves (here item member goes)
      have kept : rest.filter (fun item => !gone item) = rest := filter_eq_self.mpr (by simpa using stays)
      simp [leaves, filter_eq_nil_iff.mpr stays, kept]

/-! Members that need others. A register notes, under a key, the members that need it; as long as a key
with something noted under it is not removed, no member loses what it needs. Some needs are met from the
ground and bind nothing. -/

structure Dependencies (K : Type) where
  member : K → Prop
  needs : K → K → Prop
  noted : K → K → Prop

namespace Dependencies

variable {K : Type} {ground : K → Prop} {before after : Dependencies K} {key : K}

/-- What a member needs is ground, or a member under which the need is noted. -/
def Rooted (ground : K → Prop) (register : Dependencies K) : Prop :=
  ∀ child parent, register.needs child parent → ¬ ground parent → register.member parent ∧ register.noted parent child

structure Removes (key : K) (before after : Dependencies K) : Prop where
  member : ∀ other, before.member other → other ≠ key → after.member other
  needs : ∀ child parent, after.needs child parent → before.needs child parent ∧ child ≠ key
  noted : ∀ parent child, before.noted parent child → parent ≠ key → child ≠ key → after.noted parent child
  fewer : ∀ parent child, after.noted parent child → before.noted parent child

structure Adds (ground : K → Prop) (key : K) (before after : Dependencies K) : Prop where
  member : ∀ other, before.member other → after.member other
  needs : ∀ child parent, after.needs child parent →
    before.needs child parent ∨ child = key ∧ (ground parent ∨ after.member parent ∧ after.noted parent key)
  noted : ∀ parent child, before.noted parent child → after.noted parent child

/-- Nothing needs a removal that is ground, or has nothing noted under it. -/
def Free (ground : K → Prop) (register : Dependencies K) (key : K) : Prop :=
  ground key ∨ ∀ child, ¬ register.noted key child

lemma Rooted.removes (rooted : Rooted ground before) (removes : Removes key before after)
    (free : Free ground before key) :
    Rooted ground after := by
  intro child parent needed above
  obtain ⟨neededBefore, stays⟩ := removes.needs child parent needed
  obtain ⟨member, noted⟩ := rooted child parent neededBefore above
  have other : parent ≠ key := by
    rintro rfl
    rcases free with isGround | unnoted
    · exact above isGround
    · exact unnoted child noted
  exact ⟨removes.member parent member other, removes.noted parent child noted other stays⟩

lemma Free.removes {other : K} (removes : Removes key before after) (free : Free ground before other) :
    Free ground after other := by
  rcases free with isGround | unnoted
  · exact .inl isGround
  · exact .inr fun child noted => unnoted child (removes.fewer other child noted)

lemma Rooted.adds (key : K) (rooted : Rooted ground before) (adds : Adds ground key before after) :
    Rooted ground after := by
  intro child parent needed above
  rcases adds.needs child parent needed with old | ⟨rfl, isGround | present⟩
  · obtain ⟨member, noted⟩ := rooted child parent old above
    exact ⟨adds.member parent member, adds.noted parent child noted⟩
  · exact absurd isGround above
  · exact present

/-- Keys that are free to begin with may be removed one after the other. -/
lemma Rooted.foldl {σ : Type} {view : σ → Dependencies K} {remove : σ → K → σ}
    (removes : ∀ state key, Removes key (view state) (view (remove state key))) {keys : List K} {state : σ}
    (rooted : Rooted ground (view state)) (free : ∀ key ∈ keys, Free ground (view state) key) :
    Rooted ground (view (keys.foldl remove state)) := by
  induction keys generalizing state with
  | nil => exact rooted
  | cons key rest ih =>
    refine ih (rooted.removes (removes state key) (free key List.mem_cons_self)) fun other inside => ?_
    exact (free other (List.mem_cons_of_mem _ inside)).removes (removes state key)

end Dependencies

end Dilithion.Lib
