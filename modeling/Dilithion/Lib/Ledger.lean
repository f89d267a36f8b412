import Mathlib

/-! Ledgers of unspent items. A ledger maps keys to items; events consume a key or create an item at
a key. The state after a sequence of events is what the last event at each key left there. -/

namespace Dilithion.Lib

open List Option Function

abbrev Ledger (K V : Type) := K → Option V

namespace Ledger

inductive Event (K V : Type) where
  | consume (key : K)
  | create (key : K) (value : V)
  deriving DecidableEq, Repr

variable {K V : Type}

namespace Event

def key : Event K V → K
  | consume key => key
  | create key _ => key

def effect : Event K V → Option V
  | consume _ => none
  | create _ value => some value

def consumed : Event K V → Option K
  | consume key => some key
  | create _ _ => none

def created : Event K V → Option (K × V)
  | consume _ => none
  | create key value => some (key, value)

@[simp] lemma key_consume (at_ : K) : (consume at_ : Event K V).key = at_ := rfl
@[simp] lemma key_create (at_ : K) (value : V) : (create at_ value).key = at_ := rfl
@[simp] lemma effect_consume (at_ : K) : (consume at_ : Event K V).effect = none := rfl
@[simp] lemma effect_create (at_ : K) (value : V) : (create at_ value).effect = some value := rfl

end Event

lemma mem_filterMap_created {events : List (Event K V)} {item : K × V} :
    item ∈ events.filterMap Event.created ↔ .create item.1 item.2 ∈ events := by
  rw [mem_filterMap]
  constructor
  · rintro ⟨event, member, same⟩
    cases event with
    | consume key => cases same
    | create key value => cases same; exact member
  · exact fun member => ⟨_, member, rfl⟩

lemma length_eq_consumed_add_created (events : List (Event K V)) :
    events.length = (events.filterMap Event.consumed).length + (events.filterMap Event.created).length := by
  induction events with
  | nil => rfl
  | cons event rest ih =>
    cases event <;> simp only [filterMap_cons, Event.consumed, Event.created, length_cons] <;> omega

section

variable [DecidableEq K]

variable (event : Event K V) (ledger : Ledger K V)

def Event.apply : Ledger K V :=
  Function.update ledger event.key event.effect

def run (events : List (Event K V)) : Ledger K V :=
  events.foldl (fun now event => event.apply now) ledger

@[simp] lemma run_nil : run ledger [] = ledger := rfl

@[simp] lemma run_cons (event : Event K V) (events : List (Event K V)) :
    run ledger (event :: events) = run (event.apply ledger) events := rfl

lemma run_append (before after : List (Event K V)) : run ledger (before ++ after) = run (run ledger before) after := by
  simp [run]

lemma run_concat (before : List (Event K V)) (event : Event K V) :
    run ledger (before ++ [event]) = event.apply (run ledger before) := by
  simp [run_append]

/-- What the last event at `key` leaves there; `none` when no event touches `key`. -/
def effectAt (key : K) : List (Event K V) → Option (Option V)
  | [] => none
  | event :: rest => (effectAt key rest).or (if event.key = key then some event.effect else none)

variable (key : K)

lemma effectAt_append (before after : List (Event K V)) :
    effectAt key (before ++ after) = (effectAt key after).or (effectAt key before) := by
  induction before with
  | nil => simp [effectAt]
  | cons event before ih => simp [effectAt, ih, Option.or_assoc]

lemma effectAt_concat (before : List (Event K V)) (event : Event K V) :
    effectAt key (before ++ [event]) = if event.key = key then some event.effect else effectAt key before := by
  rw [effectAt_append]
  by_cases touched : event.key = key <;> simp [effectAt, touched]

lemma run_apply (events : List (Event K V)) (key : K) :
    run ledger events key = (effectAt key events).getD (ledger key) := by
  induction events using reverseRecOn with
  | nil => rfl
  | append_singleton before event ih =>
    rw [run_concat, effectAt_concat, Event.apply]
    by_cases touched : event.key = key
    · subst touched
      simp
    · simp [touched, update_of_ne (Ne.symm touched), ih]

lemma effectAt_eq_none_iff (events : List (Event K V)) : effectAt key events = none ↔
    ∀ event ∈ events, event.key ≠ key := by
  induction events with
  | nil => simp [effectAt]
  | cons event rest ih => simp [effectAt, ih, and_comm]

lemma run_forall {holds : V → Prop} {events : List (Event K V)} {ledger : Ledger K V}
    (before : ∀ key value, ledger key = some value → holds value)
    (created : ∀ key value, .create key value ∈ events → holds value) :
    ∀ key value, run ledger events key = some value → holds value := by
  induction events generalizing ledger with
  | nil => exact before
  | cons event rest ih =>
    refine ih (fun key value left => ?_) fun key value later => created key value (mem_cons_of_mem _ later)
    simp only [Event.apply, Function.update_apply] at left
    split at left
    · cases event with
      | consume at_ => cases left
      | create at_ item => exact Option.some.inj left ▸ created at_ item mem_cons_self
    · exact before key value left

/-! Dropping events by what they leave behind. -/

variable {events : List (Event K V)} {keep : Option V → Bool} {left : Option V}

lemma effectAt_filter_of_kept {key : K} (last : effectAt key events = some left) (kept : keep left = true) :
    effectAt key (events.filter (fun event => keep event.effect)) = some left := by
  induction events using reverseRecOn with
  | nil => simp [effectAt] at last
  | append_singleton before event ih =>
    rw [effectAt_concat] at last
    rw [filter_append, effectAt_append]
    by_cases here : event.key = key
    · rw [if_pos here, some.injEq] at last
      simp [effectAt, here, last, kept]
    · rw [if_neg here] at last
      rw [ih last]
      by_cases dropped : keep event.effect = true <;> simp [effectAt, here, dropped]

lemma keep_of_effectAt_filter {key : K}
    (last : effectAt key (events.filter (fun event => keep event.effect)) = some left) : keep left = true := by
  induction events using reverseRecOn with
  | nil => simp [effectAt] at last
  | append_singleton before event ih =>
    rw [filter_append, effectAt_append] at last
    by_cases kept : keep event.effect = true
    · by_cases here : event.key = key
      · have same : event.effect = left := by simpa [effectAt, kept, here] using last
        exact same ▸ kept
      · exact ih (by simpa [effectAt, kept, here] using last)
    · exact ih (by simpa [effectAt, kept] using last)

/-- Dropping the events that leave something not to be kept changes nothing exactly when each such
item left in the end had been there from the start and nothing else happened to it. -/
lemma run_filter_eq_iff (keep : Option V → Bool) (ledger : Ledger K V) (events : List (Event K V)) (key : K) :
    run ledger events key = run ledger (events.filter (fun event => keep event.effect)) key ↔
      ∀ left, effectAt key events = some left → keep left = false →
        ledger key = left ∧ effectAt key (events.filter (fun event => keep event.effect)) = none := by
  rw [run_apply, run_apply]
  constructor
  · intro same left last dropped
    rw [last, getD_some] at same
    cases inner : effectAt key (events.filter (fun event => keep event.effect)) with
    | none => exact ⟨by simpa [inner] using same.symm, rfl⟩
    | some other =>
      have kept := keep_of_effectAt_filter inner
      rw [inner] at same
      subst same
      rw [kept] at dropped
      cases dropped
  · intro unchanged
    cases last : effectAt key events with
    | none =>
      have untouched := (effectAt_eq_none_iff key events).mp last
      have inner : effectAt key (events.filter (fun event => keep event.effect)) = none :=
        (effectAt_eq_none_iff key _).mpr fun event member => untouched event (mem_filter.mp member).1
      rw [inner]
    | some left =>
      cases kept : keep left with
      | true => rw [effectAt_filter_of_kept last kept]
      | false =>
        obtain ⟨same, inner⟩ := unchanged left last kept
        rw [inner]
        exact same.symm

def EachUnspent : Ledger K V → List (Event K V) → Prop
  | _, [] => True
  | now, .consume key :: rest => now key ≠ none ∧ EachUnspent ((Event.consume key).apply now) rest
  | now, .create key value :: rest => EachUnspent ((Event.create key value).apply now) rest

instance decidableEachUnspent : (now : Ledger K V) → (events : List (Event K V)) → Decidable (EachUnspent now events)
  | _, [] => inferInstanceAs (Decidable True)
  | now, .consume key :: rest =>
    have := decidableEachUnspent ((Event.consume key).apply now) rest
    have : Decidable (now key ≠ none) := decidable_of_iff ((now key).isSome = true) Option.isSome_iff_ne_none
    inferInstanceAs (Decidable (now key ≠ none ∧ EachUnspent ((Event.consume key).apply now) rest))
  | now, .create key value :: rest => decidableEachUnspent ((Event.create key value).apply now) rest

/-- No consumption names a key of `spent`, or one consumed earlier and not created again since. -/
def NoRespend : List K → List (Event K V) → Prop
  | _, [] => True
  | spent, .consume key :: rest => key ∉ spent ∧ NoRespend (key :: spent) rest
  | spent, .create key _ :: rest => NoRespend (spent.filter (· ≠ key)) rest

instance decidableNoRespend : (spent : List K) → (events : List (Event K V)) → Decidable (NoRespend spent events)
  | _, [] => inferInstanceAs (Decidable True)
  | spent, .consume key :: rest =>
    have := decidableNoRespend (key :: spent) rest
    inferInstanceAs (Decidable (key ∉ spent ∧ NoRespend (key :: spent) rest))
  | spent, .create key _ :: rest => decidableNoRespend (spent.filter (· ≠ key)) rest

/-- The items the consumptions find when a miss in the current ledger is answered by `base`, the
ledger the events started from; `none` when a consumption finds nothing in either. -/
def spentRecords (base : Ledger K V) : Ledger K V → List (Event K V) → Option (List (K × V))
  | _, [] => some []
  | now, .consume key :: rest =>
    ((now key).or (base key)).bind fun value =>
      (spentRecords base ((Event.consume key).apply now) rest).map ((key, value) :: ·)
  | now, .create key value :: rest => spentRecords base ((Event.create key value).apply now) rest

lemma spentRecords_append (base now : Ledger K V) (before after : List (Event K V)) :
    spentRecords base now (before ++ after) = (spentRecords base now before).bind fun first =>
      (spentRecords base (run now before) after).map (first ++ ·) := by
  induction before generalizing now with
  | nil => simp [spentRecords]
  | cons event before ih =>
    cases event with
    | create key value => simp [spentRecords, ih]
    | consume key =>
      simp only [cons_append, spentRecords, run_cons, ih]
      cases (now key).or (base key) with
      | none => rfl
      | some value =>
        cases spentRecords base ((Event.consume key).apply now) before with
        | none => rfl
        | some first => simp [comp_def]

variable {before : List (Event K V)} {spent : List K}

section

variable (tracked : ∀ key, key ∈ spent ↔ effectAt key before = some none)

include tracked

/-- The keys whose last event consumed them, kept up to date by one more event. -/
lemma tracked_consume (key other : K) :
    other ∈ key :: spent ↔ effectAt other (before ++ [.consume key]) = some none := by
  rw [effectAt_concat]
  by_cases same : key = other
  · simp [same]
  · simp [same, Ne.symm same, tracked]

lemma tracked_create (key : K) (value : V) (other : K) :
    other ∈ spent.filter (· ≠ key) ↔ effectAt other (before ++ [.create key value]) = some none := by
  rw [effectAt_concat]
  by_cases same : key = other
  · simp [same]
  · simp [same, Ne.symm same, tracked]

end

variable {base : Ledger K V} {records : List (K × V)} {after : List (Event K V)}

lemma eachUnspent_iff_noRespend_from (tracked : ∀ key, key ∈ spent ↔ effectAt key before = some none)
    (found : spentRecords base (run base before) after = some records) :
    EachUnspent (run base before) after ↔ NoRespend spent after := by
  induction after generalizing before spent records with
  | nil => simp [EachUnspent, NoRespend]
  | cons event rest ih =>
    cases event with
    | consume key =>
      simp only [spentRecords, bind_eq_some_iff, map_eq_some_iff] at found
      obtain ⟨value, present, later, found, -⟩ := found
      have unspent : run base before key ≠ none ↔ key ∉ spent := by
        rw [run_apply] at present ⊢
        cases effect : effectAt key before with
        | none => simp_all
        | some left => cases left <;> simp_all
      rw [← run_concat] at found
      have tail := ih (tracked_consume tracked key) found
      simp only [EachUnspent, NoRespend, unspent]
      rw [← run_concat, tail]
    | create key value =>
      simp only [spentRecords] at found
      rw [← run_concat] at found
      have tail := ih (tracked_create tracked key value) found
      simp only [EachUnspent, NoRespend]
      rw [← run_concat, tail]

/-- A read-through walk that finds every item has consumed each key at most once exactly when it
consumed unspent items only. -/
lemma eachUnspent_iff_noRespend
    (found : spentRecords base base events = some records) : EachUnspent base events ↔ NoRespend [] events := by
  have tracked : ∀ key, key ∈ ([] : List K) ↔ effectAt key ([] : List (Event K V)) = some none := by
    simp [effectAt]
  exact eachUnspent_iff_noRespend_from tracked found

lemma spentRecords_strict_from
    (tracked : ∀ key, key ∈ spent ↔ effectAt key before = some none) (once : NoRespend spent after) :
    spentRecords (fun _ => none) (run base before) after = spentRecords base (run base before) after := by
  induction after generalizing before spent with
  | nil => rfl
  | cons event rest ih =>
    cases event with
    | consume key =>
      obtain ⟨unspent, onceRest⟩ := once
      have direct : (run base before key).or (base key) = run base before key := by
        rw [run_apply]
        cases effect : effectAt key before with
        | none => simp
        | some left =>
          cases left with
          | none => exact absurd ((tracked key).mpr effect) unspent
          | some value => rfl
      have tail := ih (tracked_consume tracked key) onceRest
      rw [run_concat] at tail
      simp [spentRecords, direct, tail]
    | create key value =>
      have tail := ih (tracked_create tracked key value) once
      rw [run_concat] at tail
      exact tail

/-- A walk that consumes no key twice never needs the read-through. -/
lemma spentRecords_strict (once : NoRespend [] events) :
    spentRecords (fun _ => none) base events = spentRecords base base events := by
  have tracked : ∀ key, key ∈ ([] : List K) ↔ effectAt key ([] : List (Event K V)) = some none := by
    simp [effectAt]
  exact spentRecords_strict_from tracked once

lemma noRespend_of_nodup (nodup : (events.filterMap Event.consumed).Nodup)
    (apart : ∀ key ∈ events.filterMap Event.consumed, key ∉ spent) : NoRespend spent events := by
  induction events generalizing spent with
  | nil => trivial
  | cons event rest ih =>
    cases event with
    | create key value => exact ih nodup fun other member again => apart other member (mem_of_mem_filter again)
    | consume key =>
      obtain ⟨fresh, nodupRest⟩ := nodup_cons.mp nodup
      refine ⟨apart key mem_cons_self, ih nodupRest fun other member again => ?_⟩
      rcases mem_cons.mp again with rfl | before
      · exact fresh member
      · exact apart other (mem_cons_of_mem _ member) before

variable {now : Ledger K V}

lemma spentRecords_of_found (found : ∀ key ∈ events.filterMap Event.consumed, base key ≠ none) :
    ∃ records, spentRecords base now events = some records := by
  induction events generalizing now with
  | nil => exact ⟨[], rfl⟩
  | cons event rest ih =>
    cases event with
    | create key value => exact ih found
    | consume key =>
      obtain ⟨records, later⟩ := @ih ((Event.consume key).apply now) fun other member =>
        found other (mem_cons_of_mem _ member)
      obtain ⟨value, initial⟩ := ne_none_iff_exists'.mp (found key mem_cons_self)
      cases current : now key <;> simp [spentRecords, initial, current, later]

lemma spentRecords_keys (found : spentRecords base now events = some records) :
    records.map Prod.fst = events.filterMap Event.consumed := by
  induction events generalizing now records with
  | nil =>
    simp only [spentRecords, some.injEq] at found
    subst found
    rfl
  | cons event rest ih =>
    cases event with
    | create key value => exact ih found
    | consume key =>
      simp only [spentRecords, bind_eq_some_iff, map_eq_some_iff] at found
      obtain ⟨value, -, later, found, rfl⟩ := found
      simp [Event.consumed, ih found]

/-- Whatever holds of every item of the two ledgers and of every created item holds of the records. -/
lemma spentRecords_forall {holds : V → Prop} (inBase : ∀ key value, base key = some value → holds value)
    (inNow : ∀ key value, now key = some value → holds value)
    (created : ∀ key value, .create key value ∈ events → holds value)
    (found : spentRecords base now events = some records) : ∀ record ∈ records, holds record.2 := by
  induction events generalizing now records with
  | nil =>
    simp only [spentRecords, some.injEq] at found
    simp [← found]
  | cons event rest ih =>
    have later : ∀ key value, .create key value ∈ rest → holds value :=
      fun key value member => created key value (mem_cons_of_mem _ member)
    have step : ∀ key value, event.apply now key = some value → holds value := by
      intro key value here
      by_cases same : key = event.key
      · subst same
        rw [Event.apply, update_self] at here
        cases event with
        | consume at_ => simp at here
        | create at_ item =>
          simp only [Event.effect_create, some.injEq] at here
          exact here ▸ created at_ item mem_cons_self
      · rw [Event.apply, update_of_ne same] at here
        exact inNow key value here
    cases event with
    | create at_ item => exact ih step later found
    | consume at_ =>
      simp only [spentRecords, bind_eq_some_iff, map_eq_some_iff] at found
      obtain ⟨value, present, others, found, rfl⟩ := found
      have here : holds value := by
        rcases or_eq_some_iff.mp present with current | ⟨-, initial⟩
        · exact inNow at_ value current
        · exact inBase at_ value initial
      exact forall_mem_cons.mpr ⟨here, ih step later found⟩

def lastRecord (key : K) : List (K × V) → Option V
  | [] => none
  | record :: rest => (lastRecord key rest).or (if record.1 = key then some record.2 else none)

lemma lastRecord_eq_none_iff (records : List (K × V)) : lastRecord key records = none ↔ key ∉ records.map Prod.fst := by
  induction records with
  | nil => simp [lastRecord]
  | cons record rest ih =>
    simp only [lastRecord, or_eq_none_iff, ih, map_cons, mem_cons, not_or]
    by_cases here : record.1 = key
    · simp [here]
    · simp [here, Ne.symm here]

lemma mem_of_lastRecord {value : V} (last : lastRecord key records = some value) : (key, value) ∈ records := by
  induction records with
  | nil => cases last
  | cons record rest ih =>
    rcases or_eq_some_iff.mp last with later | ⟨-, here⟩
    · exact mem_cons_of_mem _ (ih later)
    · split at here
      · rename_i same
        cases here
        exact same ▸ mem_cons_self
      · cases here

lemma lastRecord_of_nodup (nodup : (records.map Prod.fst).Nodup) {record : K × V} (member : record ∈ records) :
    lastRecord record.1 records = some record.2 := by
  induction records with
  | nil => cases member
  | cons first rest ih =>
    obtain ⟨fresh, nodupRest⟩ := nodup_cons.mp nodup
    rcases mem_cons.mp member with rfl | later
    · have last : lastRecord record.1 rest = none := by rwa [lastRecord_eq_none_iff]
      simp [lastRecord, last]
    · simp [lastRecord, ih nodupRest later]

def undoEvents (outputs : List K) (records : List (K × V)) : List (Event K V) :=
  outputs.map .consume ++ records.map (fun record => .create record.1 record.2)

lemma effectAt_creates (records : List (K × V)) :
    effectAt key (records.map (fun record => Event.create record.1 record.2)) = (lastRecord key records).map some := by
  induction records with
  | nil => rfl
  | cons record rest ih =>
    simp only [map_cons, effectAt, ih, lastRecord, Event.key_create, Event.effect_create]
    cases lastRecord key rest with
    | some value => rfl
    | none => by_cases here : record.1 = key <;> simp [here]

lemma effectAt_consumes (outputs : List K) :
    effectAt key (outputs.map (Event.consume : K → Event K V)) = if key ∈ outputs then some none else none := by
  induction outputs with
  | nil => rfl
  | cons output rest ih =>
    simp only [map_cons, effectAt, ih, Event.key_consume, Event.effect_consume, mem_cons]
    by_cases later : key ∈ rest
    · simp [later]
    · by_cases here : output = key
      · simp [later, here]
      · simp [later, here, Ne.symm here]

lemma effectAt_undoEvents (outputs : List K) (records : List (K × V)) : effectAt key (undoEvents outputs records) =
    ((lastRecord key records).map some).or (if key ∈ outputs then some none else none) := by
  rw [undoEvents, effectAt_append, effectAt_creates, effectAt_consumes]

/-- What undoing needs: a key that was consumed held the recorded item from the start, and a key
that was only created was free. -/
structure Restores (base : Ledger K V) (events : List (Event K V)) (records : List (K × V)) : Prop where
  recorded : ∀ key value, lastRecord key records = some value → base key = some value
  fresh : ∀ key value, .create key value ∈ events → lastRecord key records = none → base key = none

/-- A walk that names no key twice and can be taken back finds what was there from the start. -/
lemma Restores.initial (restores : Restores base events records) (found : spentRecords base base events = some records)
    (nodup : (events.filterMap Event.consumed).Nodup) : ∀ record ∈ records, base record.1 = some record.2 :=
  fun record member => restores.recorded record.1 record.2
    (lastRecord_of_nodup (by rwa [spentRecords_keys found]) member)

lemma undo_restores_iff {outputs : List K} (created : ∀ key, key ∈ outputs ↔ ∃ value, .create key value ∈ events)
    (found : spentRecords base base events = some records) :
    (∀ key, run (run base events) (undoEvents outputs records) key = base key) ↔ Restores base events records := by
  have each : ∀ key, run (run base events) (undoEvents outputs records) key =
      match lastRecord key records with
      | some value => some value
      | none => if key ∈ outputs then none else base key := by
    intro key
    rw [run_apply, effectAt_undoEvents]
    cases last : lastRecord key records with
    | some value => rfl
    | none =>
      by_cases output : key ∈ outputs
      · simp [output]
      · have untouched : effectAt key events = none := by
          rw [effectAt_eq_none_iff]
          intro event member same
          cases event with
          | create at_ value => exact output ((created key).mpr ⟨value, by simpa [← same] using member⟩)
          | consume at_ =>
            rw [lastRecord_eq_none_iff, spentRecords_keys found] at last
            exact last (mem_filterMap.mpr ⟨_, member, congrArg some same⟩)
        simp [output, run_apply, untouched]
  constructor
  · intro same
    refine ⟨fun key value last => ?_, fun key value member last => ?_⟩
    · rw [← same key, each key, last]
    · rw [← same key, each key, last]
      simp [(created key).mpr ⟨value, member⟩]
  · intro restores key
    rw [each key]
    cases last : lastRecord key records with
    | some value => exact (restores.recorded key value last).symm
    | none =>
      by_cases output : key ∈ outputs
      · obtain ⟨value, member⟩ := (created key).mp output
        simp [output, restores.fresh key value member last]
      · simp [output]

end

end Ledger

end Dilithion.Lib
