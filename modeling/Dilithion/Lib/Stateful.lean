import Mathlib

/-! Programs that may fail and change a state. An invariant of the state is kept by a sequence if its parts keep it. -/

namespace Dilithion.Lib

abbrev Stateful (σ α : Type) := ExceptT String (StateM σ) α

namespace Stateful

variable {σ α β : Type} {inv : σ → Prop}

def check (outcome : Except String α) : Stateful σ α :=
  match outcome with
  | .error text => throw text
  | .ok value => pure value

def query (ask : σ → α × σ) : Stateful σ α := fun state => ((.ok (ask state).1 : Except String α), (ask state).2)

variable (condition : Prop)

def refuse [Decidable condition] (text : String) : Stateful σ Unit :=
  if condition then throw text else pure ()

def onlyIf [Decidable condition] (program : Stateful σ Unit) : Stateful σ Unit :=
  if condition then program else pure ()

/-- From a state with the invariant the computation ends in one, whether it fails or not, and a
result satisfies `post`. -/
def Keeps (inv : σ → Prop) (program : Stateful σ α) (post : α → Prop) : Prop :=
  ∀ state, inv state → inv (program state).2 ∧ ∀ value, (program state).1 = .ok value → post value

variable {post : α → Prop}

lemma Keeps.pure {value : α} (holds : post value) : Keeps inv (Pure.pure value : Stateful σ α) post := by
  intro state good
  refine ⟨good, fun found done => ?_⟩
  cases done
  exact holds

lemma Keeps.throw (text : String) (post : α → Prop) : Keeps inv (throw text : Stateful σ α) post := by
  intro state good
  refine ⟨good, fun found done => ?_⟩
  cases done

/-- A failed first half ends the computation in the state it reached. -/
lemma bind_run (first : Stateful σ α) (next : α → Stateful σ β) (state : σ) : (first >>= next) state =
    match first state with
    | (.error text, after) => (.error text, after)
    | (.ok value, after) => next value after := by
  rcases outcome : first state with ⟨result, after⟩
  cases result <;>
    simp [Bind.bind, ExceptT.bind, ExceptT.mk, StateT.bind, ExceptT.bindCont, outcome, Pure.pure, StateT.pure]

lemma bind_ok_iff (first : Stateful σ α) (next : α → Stateful σ β) (state : σ) (value : β) :
    ((first >>= next) state).1 = .ok value ↔
      ∃ middle, (first state).1 = .ok middle ∧ (next middle (first state).2).1 = .ok value := by
  rw [bind_run]
  rcases first state with ⟨result, after⟩
  cases result with
  | error text =>
    constructor
    · intro done
      cases done
    · rintro ⟨middle, done, -⟩
      cases done
  | ok found =>
    constructor
    · exact fun done => ⟨found, rfl, done⟩
    · rintro ⟨middle, done, rest⟩
      cases done
      exact rest

lemma check_run (outcome : Except String α) (state : σ) : (check outcome : Stateful σ α) state = (outcome, state) := by
  cases outcome <;> rfl

lemma refuse_run [Decidable condition] (text : String) (state : σ) :
    (refuse condition text : Stateful σ Unit) state = (if condition then .error text else .ok (), state) := by
  unfold refuse
  split <;> rfl

lemma Keeps.bind {first : Stateful σ α} {next : α → Stateful σ β} {middle : α → Prop} {post : β → Prop}
    (start : Keeps inv first middle) (rest : ∀ value, middle value → Keeps inv (next value) post) :
    Keeps inv (first >>= next) post := by
  intro state good
  obtain ⟨kept, holds⟩ := start state good
  rw [bind_run]
  rcases outcome : first state with ⟨result, after⟩
  rw [outcome] at kept holds
  cases result with
  | error text => exact ⟨kept, fun found done => by cases done⟩
  | ok value => exact rest value (holds value rfl) after kept

lemma Keeps.weaken {program : Stateful σ α} {post weaker : α → Prop} (holds : Keeps inv program post)
    (implies : ∀ value, post value → weaker value) : Keeps inv program weaker := by
  intro state good
  obtain ⟨kept, result⟩ := holds state good
  exact ⟨kept, fun value done => implies value (result value done)⟩

lemma Keeps.check (outcome : Except String α) :
    Keeps inv (check outcome : Stateful σ α) (fun value => outcome = .ok value) := by
  cases outcome with
  | error text => exact Keeps.throw text _
  | ok value => exact Keeps.pure rfl

lemma Keeps.query {ask : σ → α × σ}
    (holds : ∀ state, inv state → inv (ask state).2 ∧ post (ask state).1) : Keeps inv (query ask) post := by
  intro state good
  refine ⟨(holds state good).1, fun value done => ?_⟩
  cases done
  exact (holds state good).2

lemma Keeps.refuse [Decidable condition] (text : String) :
    Keeps inv (refuse condition text : Stateful σ Unit) (fun _ => ¬ condition) := by
  unfold Stateful.refuse
  split
  · exact Keeps.throw text _
  · exact Keeps.pure ‹¬ condition›

lemma Keeps.onlyIf {condition : Prop} [Decidable condition] {program : Stateful σ Unit} {post : Unit → Prop}
    (holds : condition → Keeps inv program post) :
    Keeps inv (onlyIf condition program) (fun value => condition → post value) := by
  unfold Stateful.onlyIf
  split
  · exact (holds ‹condition›).weaken fun _ result _ => result
  · exact Keeps.pure fun met => absurd met ‹¬ condition›

end Stateful

end Dilithion.Lib
