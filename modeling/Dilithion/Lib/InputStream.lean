import Mathlib

/-! Reading fields of known size from a byte stream that may end early. A field is read over what its
variable held before: a short read overwrites as much as there is, and every later read leaves its
variable alone. A reader cannot tell a torn stream from a whole one until it fails. -/

namespace Dilithion.Lib

open List

structure InputStream where
  data : List UInt8
  failed : Bool

abbrev Reader := StateM InputStream

namespace Reader

def read (target : List UInt8) : Reader (List UInt8) := fun stream =>
  if stream.failed then (target, stream)
  else if target.length ≤ stream.data.length then
    (stream.data.take target.length, ⟨stream.data.drop target.length, false⟩)
  else (stream.data ++ target.drop stream.data.length, ⟨[], true⟩)

def readEach : List (List UInt8) → Reader (List (List UInt8))
  | [] => pure []
  | target :: rest => do
    let first ← read target
    let others ← readEach rest
    return first :: others

variable {α β : Type} {first : Reader α} {next : α → Reader β}

lemma run_bind {stream after : InputStream} {value : α}
    (step : first.run stream = (value, after)) : (first >>= next).run stream = (next value).run after := by
  rw [StateT.run_bind, step]
  rfl

lemma read_whole {target front : List UInt8} (size : front.length = target.length) (rest : List UInt8) :
    (read target).run ⟨front ++ rest, false⟩ = (front, ⟨rest, false⟩) := by
  change read target ⟨front ++ rest, false⟩ = _
  simp [read, ← size]

lemma readEach_whole {targets fields : List (List UInt8)} (sizes : fields.map length = targets.map length)
    (rest : List UInt8) : (readEach targets).run ⟨fields.flatten ++ rest, false⟩ = (fields, ⟨rest, false⟩) := by
  induction targets generalizing fields with
  | nil =>
    cases fields with
    | nil => rfl
    | cons field others => cases sizes
  | cons target targets ih =>
    cases fields with
    | nil => cases sizes
    | cons field others =>
      rw [map_cons, map_cons, cons.injEq] at sizes
      rw [flatten_cons, append_assoc, readEach, run_bind (read_whole sizes.1 _), run_bind (ih sizes.2)]
      rfl

/-- A failure is final, and up to it more data would make no difference. -/
structure Steady (reader : Reader α) : Prop where
  stays : ∀ data, (reader.run ⟨data, true⟩).2.failed = true
  follows : ∀ data missing, (reader.run ⟨data, false⟩).2.failed = true ∨
    ∃ value rest, reader.run ⟨data, false⟩ = (value, ⟨rest, false⟩) ∧
      reader.run ⟨data ++ missing, false⟩ = (value, ⟨rest ++ missing, false⟩)

lemma Steady.pure (value : α) : Steady (pure value : Reader α) :=
  ⟨fun _ => rfl, fun data _ => .inr ⟨value, data, rfl, rfl⟩⟩

lemma Steady.bind (start : Steady first) (continue_ : ∀ value, Steady (next value)) : Steady (first >>= next) := by
  have failing : ∀ {stream : InputStream}, (first.run stream).2.failed = true →
      ((first >>= next).run stream).2.failed = true := by
    intro stream failed
    rw [run_bind (Prod.eta (first.run stream)).symm]
    cases after : (first.run stream).2 with
    | mk data flag =>
      rw [after] at failed
      cases failed
      exact (continue_ _).stays data
  refine ⟨fun data => failing (start.stays data), fun data missing => ?_⟩
  rcases start.follows data missing with failed | ⟨value, rest, short, long⟩
  · exact .inl (failing failed)
  · rw [run_bind short, run_bind long]
    exact (continue_ value).follows rest missing

lemma Steady.read (target : List UInt8) : Steady (read target) := by
  refine ⟨fun data => rfl, fun data missing => ?_⟩
  by_cases enough : target.length ≤ data.length
  · refine .inr ⟨data.take target.length, data.drop target.length, ?_, ?_⟩
    · change Reader.read target ⟨data, false⟩ = _
      simp [Reader.read, enough]
    · have more : target.length ≤ (data ++ missing).length := by rw [length_append]; omega
      change Reader.read target ⟨data ++ missing, false⟩ = _
      rw [Reader.read, if_neg (by simp), if_pos more, take_append_of_le_length enough, drop_append_of_le_length enough]
  · refine .inl ?_
    change (Reader.read target ⟨data, false⟩).2.failed = true
    simp [Reader.read, enough]

lemma Steady.readEach (targets : List (List UInt8)) : Steady (readEach targets) := by
  induction targets with
  | nil => exact .pure []
  | cons target rest ih => exact .bind (.read target) fun first => .bind ih fun others => .pure _

/-- A field read from a stream that lost its end keeps at least the end of its variable. -/
lemma Steady.read_torn {reader : Reader α} (steady : Steady reader) {data missing last target : List UInt8} {value : α}
    (lost : missing ≠ []) (positive : 0 < target.length)
    (whole : reader.run ⟨data ++ missing, false⟩ = (value, ⟨last, false⟩)) (size : target.length = last.length) :
    ∃ front, front.length < target.length ∧
      ((Reader.read target).run (reader.run ⟨data, false⟩).2).1 = front ++ target.drop front.length := by
  have some_ : 0 < missing.length := length_pos_of_ne_nil lost
  rcases steady.follows data missing with failed | ⟨short, rest, stopped, long⟩
  · refine ⟨[], positive, ?_⟩
    change (Reader.read target (reader.run ⟨data, false⟩).2).1 = _
    simp [Reader.read, failed]
  · have same : last = rest ++ missing := by
      rw [whole] at long
      exact congrArg (fun outcome => outcome.2.data) long
    have less : rest.length < target.length := by rw [size, same, length_append]; omega
    refine ⟨rest, less, ?_⟩
    rw [stopped]
    change (Reader.read target ⟨rest, false⟩).1 = _
    simp [Reader.read, Nat.not_le.mpr less]

end Reader

end Dilithion.Lib
