import Mathlib

/-! Little-endian numbers, and decoders that consume bytes from the front or fail with a text. -/

namespace Dilithion.Lib.LittleEndian

def encode : Nat → Nat → List UInt8
  | 0, _ => []
  | n + 1, v => UInt8.ofNat v :: encode n (v / 256)

def value : List UInt8 → Nat
  | [] => 0
  | b :: bs => b.toNat + 256 * value bs

@[simp] lemma encode_length (n v : Nat) : (encode n v).length = n := by
  induction n generalizing v with
  | zero => rfl
  | succ n ih => simp [encode, ih]

lemma value_encode {n v : Nat} (bound : v < 256 ^ n) : value (encode n v) = v := by
  induction n generalizing v with
  | zero =>
    simp only [Nat.pow_zero, Nat.lt_one_iff] at bound
    subst bound
    rfl
  | succ n ih =>
    have quotient : v / 256 < 256 ^ n := by
      rw [Nat.div_lt_iff_lt_mul (by decide)]
      simpa [Nat.pow_succ] using bound
    simp only [encode, value, ih quotient, UInt8.toNat_ofNat']
    exact Nat.mod_add_div v 256

lemma value_lt (bs : List UInt8) : value bs < 256 ^ bs.length := by
  induction bs with
  | nil => simp [value]
  | cons b bs ih =>
    have digit : b.toNat < 256 := b.toNat_lt
    simp only [value, List.length_cons, Nat.pow_succ]
    omega

lemma value_append (front back : List UInt8) :
    value (front ++ back) = value front + 256 ^ front.length * value back := by
  induction front with
  | nil => simp [value]
  | cons b bs ih =>
    simp only [List.cons_append, value, ih, List.length_cons, Nat.pow_succ, Nat.mul_add, Nat.add_assoc]
    rw [Nat.mul_comm (256 ^ bs.length) 256, Nat.mul_assoc]

lemma value_concat (bs : List UInt8) (b : UInt8) : value (bs ++ [b]) = value bs + 256 ^ bs.length * b.toNat :=
  value_append bs [b]

lemma encode_value (bs : List UInt8) : encode bs.length (value bs) = bs := by
  induction bs with
  | nil => rfl
  | cons b bs ih =>
    have digit : b.toNat < 256 := b.toNat_lt
    have tail : (b.toNat + 256 * value bs) / 256 = value bs := by omega
    have head : UInt8.ofNat (b.toNat + 256 * value bs) = b := by
      apply UInt8.toNat.inj
      simp only [UInt8.toNat_ofNat']
      omega
    simp [value, encode, tail, ih, head]

lemma encode_value_of_length {bs : List UInt8} {n : Nat} (size : bs.length = n) : encode n (value bs) = bs := by
  subst size
  exact encode_value bs

lemma value_injective {a b : List UInt8} (size : a.length = b.length) (same : value a = value b) : a = b := by
  rw [← encode_value a, ← encode_value b, size, same]

end Dilithion.Lib.LittleEndian

namespace Dilithion.Lib

abbrev Decoder := StateT (List UInt8) (Except String)

namespace Decoder

def require (condition : Prop) [Decidable condition] (error : String) : Decoder Unit :=
  if condition then pure () else throw error

def takeBytes (count : Nat) (error : String) : Decoder (List UInt8) := do
  let data ← get
  require (count ≤ data.length) error
  set (data.drop count)
  return data.take count

def remaining : Decoder (List UInt8) := get

/-- `count` items, one after the other; an item may depend on its position. -/
def many {α : Type} (item : Nat → Decoder α) : Nat → Nat → Decoder (List α)
  | _, 0 => return []
  | position, count + 1 => do
    let head ← item position
    let tail ← many item (position + 1) count
    return head :: tail

variable {α β : Type}

def mapError (context : String → String) (decoder : Decoder α) : Decoder α :=
  fun data => (decoder.run data).mapError context

variable {first : Decoder α} {next : α → Decoder β} {data rest : List UInt8}

lemma run_bind_ok {value : α}
    (step : first.run data = .ok (value, rest)) : (first >>= next).run data = (next value).run rest := by
  rw [StateT.run_bind, step]
  rfl

lemma bind_eq_ok_iff {ε : Type} {first : Except ε α} {next : α → Except ε β} {value : β} :
    (first >>= next) = .ok value ↔ ∃ middle, first = .ok middle ∧ next middle = .ok value := by
  cases first <;> simp [bind, Except.bind]

lemma run_bind_eq_ok {value : β} (done : (first >>= next).run data = .ok (value, rest)) :
    ∃ middle kept, first.run data = .ok (middle, kept) ∧ (next middle).run kept = .ok (value, rest) := by
  rw [StateT.run_bind] at done
  obtain ⟨result, step, last⟩ := bind_eq_ok_iff.mp done
  exact ⟨result.1, result.2, step, last⟩

lemma takeBytes_run {front : List UInt8} {count : Nat} (size : front.length = count) (error : String)
    (rest : List UInt8) : (takeBytes count error).run (front ++ rest) = .ok (front, rest) := by
  subst size
  have enough : front.length ≤ (front ++ rest).length := by simp
  simp only [takeBytes, StateT.run_bind, StateT.run_get, pure_bind, require, if_pos enough]
  simp
  rfl

lemma takeBytes_short {data : List UInt8} {count : Nat} (few : data.length < count) (error : String) :
    (takeBytes count error).run data = .error error := by
  show (require (count ≤ data.length) error >>= fun _ => do set (data.drop count); return data.take count).run data =
    .error error
  rw [require, if_neg (by omega)]
  rfl

def Yields (decoder : Decoder α) (post : α → Prop) : Prop :=
  ∀ data value rest, decoder.run data = .ok (value, rest) → post value

lemma Yields.any (decoder : Decoder α) : Yields decoder (fun _ => True) :=
  fun _ _ _ _ => trivial

variable {post : α → Prop}

lemma Yields.pure {value : α} (holds : post value) : Yields (pure value) post := by
  intro data found rest done
  cases done
  exact holds

lemma Yields.throw (error : String) (post : α → Prop) : Yields (throw error : Decoder α) post := by
  intro data found rest done
  cases done

lemma Yields.bind {middle : α → Prop} {post : β → Prop}
    (start : Yields first middle) (continue_ : ∀ value, middle value → Yields (next value) post) :
    Yields (first >>= next) post := by
  intro data value rest done
  obtain ⟨between, kept, step, last⟩ := run_bind_eq_ok done
  exact continue_ between (start _ _ _ step) _ _ _ last

lemma Yields.then {post : β → Prop} (continue_ : ∀ value, Yields (next value) post) : Yields (first >>= next) post :=
  Yields.bind (Yields.any first) (fun value _ => continue_ value)

lemma Yields.require (condition : Prop) [Decidable condition] (error : String) :
    Yields (require condition error) (fun _ => condition) := by
  unfold Decoder.require
  split
  · exact Yields.pure ‹condition›
  · exact Yields.throw error _

lemma Yields.takeBytes (count : Nat) (error : String) :
    Yields (takeBytes count error) (fun data => data.length = count) := by
  refine Yields.then fun data => Yields.bind (Yields.require _ error) fun _ enough => Yields.then fun _ => ?_
  exact Yields.pure (by simp [enough])

variable {decoder : Decoder α}

lemma Yields.mapError (holds : Yields decoder post)
    (context : String → String) : Yields (mapError context decoder) post := by
  intro data value rest done
  change (decoder.run data).mapError context = .ok (value, rest) at done
  cases attempt : decoder.run data with
  | error text => simp [attempt, Except.mapError] at done
  | ok result =>
    have same : result = (value, rest) := by simpa [attempt, Except.mapError] using done
    exact holds data value rest (same ▸ attempt)

lemma Yields.and {post post' : α → Prop} (holds : Yields decoder post) (holds' : Yields decoder post') :
    Yields decoder fun value => post value ∧ post' value :=
  fun data value rest done => ⟨holds data value rest done, holds' data value rest done⟩

lemma Yields.many_length (item : Nat → Decoder α) (position count : Nat) :
    Yields (Decoder.many item position count) fun items => items.length = count := by
  induction count generalizing position with
  | zero => exact Yields.pure rfl
  | succ count ih =>
    refine Yields.then fun head => Yields.bind (ih (position + 1)) fun tail size => ?_
    exact Yields.pure (by rw [List.length_cons, size])

lemma Yields.many {item : Nat → Decoder α} (each : ∀ position, Yields (item position) post)
    (position count : Nat) : Yields (many item position count) (fun items => ∀ value ∈ items, post value) := by
  induction count generalizing position with
  | zero => exact Yields.pure (by simp)
  | succ count ih =>
    refine Yields.bind (each position) fun head first => Yields.bind (ih (position + 1)) fun tail others => ?_
    exact Yields.pure (by simpa using ⟨first, others⟩)

end Decoder

/-! Laws of byte formats. A decoder reads a value from a code if it finds the value in front of any bytes
that follow; what it consumes is described by a relation between values and codes; one decoder is
stricter than another if it accepts less and answers the same. An encoding is readable if no code is the
beginning of another one. -/

open List

namespace Decoder

variable {α β : Type}

lemma run_bind_remaining (next : List UInt8 → Decoder β) (data : List UInt8) :
    (remaining >>= next).run data = (next data).run data := rfl

variable {condition : Prop}

lemma run_bind_require_iff [Decidable condition] {error : String} {next : Unit → Decoder β}
    {data : List UInt8} {result : β × List UInt8} :
    (require condition error >>= next).run data = .ok result ↔ condition ∧ (next ()).run data = .ok result := by
  rw [require]
  by_cases holds : condition
  · rw [if_pos holds]
    exact (and_iff_right holds).symm
  · rw [if_neg holds]
    constructor
    · intro done
      cases done
    · exact fun done => absurd done.1 holds

def Reads (decoder : Decoder α) (code : List UInt8) (value : α) : Prop :=
  ∀ rest, decoder.run (code ++ rest) = .ok (value, rest)

lemma Reads.pure (value : α) : Reads (pure value) [] value := fun _ => rfl

variable {first : Decoder α} {next : α → Decoder β} {value : α}

lemma Reads.bind {code code' : List UInt8} {value' : β}
    (start : Reads first code value) (continue_ : Reads (next value) code' value') :
    Reads (first >>= next) (code ++ code') value' := by
  intro rest
  rw [append_assoc, run_bind_ok (start _), continue_]

lemma Reads.map {code : List UInt8} (start : Reads first code value) (f : α → β) :
    Reads (first >>= fun found => Pure.pure (f found)) code (f value) := by
  have whole : Reads (first >>= fun found => Pure.pure (f found)) (code ++ []) (f value) :=
    start.bind (Reads.pure (f value))
  rwa [append_nil] at whole

lemma Reads.takeBytes {front : List UInt8} {count : Nat} (size : front.length = count) (error : String) :
    Reads (takeBytes count error) front front := takeBytes_run size error

lemma Reads.require [Decidable condition] (holds : condition) (error : String) :
    Reads (require condition error) [] () := by
  intro rest
  rw [Decoder.require, if_pos holds]
  rfl

variable {item : Decoder α} {code : α → List UInt8}

lemma Reads.many {items : List α} (each : ∀ value ∈ items, Reads item (code value) value) (position : Nat) :
    Reads (many (fun _ => item) position items.length) (items.flatMap code) items := by
  induction items generalizing position with
  | nil => exact Reads.pure []
  | cons head tail ih =>
    have first := each head mem_cons_self
    have others := ih (fun value member => each value (mem_cons_of_mem _ member)) (position + 1)
    exact first.bind (others.map (head :: ·))

def Consumes (decoder : Decoder α) (used : α → List UInt8 → Prop) : Prop :=
  ∀ data value rest, decoder.run data = .ok (value, rest) → ∃ front, data = front ++ rest ∧ used value front

lemma Consumes.pure {used : α → List UInt8 → Prop} (holds : used value []) : Consumes (pure value) used := by
  intro data found rest done
  cases done
  exact ⟨[], rfl, holds⟩

lemma Consumes.bind {middle : α → List UInt8 → Prop} {used : β → List UInt8 → Prop} (start : Consumes first middle)
    (continue_ : ∀ value front, middle value front → Consumes (next value) fun last back => used last (front ++ back)) :
    Consumes (first >>= next) used := by
  intro data value rest done
  obtain ⟨between, kept, step, last⟩ := run_bind_eq_ok done
  obtain ⟨front, rfl, isFront⟩ := start _ _ _ step
  obtain ⟨back, rfl, isBack⟩ := continue_ between front isFront _ _ _ last
  exact ⟨front ++ back, (append_assoc ..).symm, isBack⟩

lemma Consumes.takeBytes (count : Nat) (error : String) :
    Consumes (takeBytes count error) fun value front => front = value ∧ front.length = count := by
  intro data value rest done
  replace done : (Decoder.require (count ≤ data.length) error >>=
    fun _ => do set (data.drop count); return data.take count).run data =
    .ok (value, rest) := done
  obtain ⟨enough, done⟩ := run_bind_require_iff.mp done
  cases done
  exact ⟨_, (take_append_drop count data).symm, rfl, by simp [enough]⟩

lemma Consumes.require (condition : Prop) [Decidable condition] (error : String) :
    Consumes (require condition error) fun _ front => front = [] ∧ condition := by
  unfold Decoder.require
  split
  · exact Consumes.pure ⟨rfl, ‹condition›⟩
  · intro data value rest done
    cases done

lemma Consumes.remaining : Consumes remaining fun _ front => front = [] := by
  intro data value rest done
  cases done
  exact ⟨[], rfl, rfl⟩

lemma Consumes.many (each : Consumes item fun value front => front = code value) (position count : Nat) :
    Consumes (many (fun _ => item) position count) fun items front => front = items.flatMap code ∧
    items.length = count := by
  induction count generalizing position with
  | zero => exact Consumes.pure ⟨rfl, rfl⟩
  | succ count ih =>
    refine Consumes.bind each fun head front isHead => Consumes.bind (ih (position + 1)) fun tail others isTail => ?_
    obtain ⟨rfl, rfl⟩ := isTail
    subst isHead
    exact Consumes.pure ⟨by simp, rfl⟩

lemma Consumes.many_length {minimum : Nat} (each : Consumes item fun _ front => minimum ≤ front.length)
    (position count : Nat) : Consumes (Decoder.many (fun _ => item) position count) fun _ front =>
      count * minimum ≤ front.length := by
  induction count generalizing position with
  | zero => exact Consumes.pure (by simp)
  | succ count ih =>
    refine Consumes.bind each fun head front long => Consumes.bind (ih (position + 1)) fun tail others longer => ?_
    refine Consumes.pure ?_
    simp only [length_append, length_nil, Nat.add_mul]
    omega

variable {decoder : Decoder α}

lemma Consumes.weaken {used used' : α → List UInt8 → Prop} (consumes : Consumes decoder used)
    (weaker : ∀ value front, used value front → used' value front) : Consumes decoder used' := by
  intro data value rest done
  obtain ⟨front, split, isUsed⟩ := consumes data value rest done
  exact ⟨front, split, weaker value front isUsed⟩

/-- What `strict` accepts, `decoder` accepts with the same answer. -/
def Stricter (strict decoder : Decoder α) : Prop :=
  ∀ data result, strict.run data = .ok result → decoder.run data = .ok result

lemma Stricter.refl (decoder : Decoder α) : Stricter decoder decoder := fun _ _ done => done

variable {strict decoder : Decoder α}

lemma Stricter.bind {next next' : α → Decoder β} (first : Stricter strict decoder)
    (later : ∀ value, Stricter (next value) (next' value)) : Stricter (strict >>= next) (decoder >>= next') := by
  rintro data ⟨value, rest⟩ done
  obtain ⟨between, kept, step, last⟩ := run_bind_eq_ok done
  rw [run_bind_ok (first _ _ step)]
  exact later between _ _ last

lemma Stricter.many (each : Stricter strict decoder) (position count : Nat) :
    Stricter (many (fun _ => strict) position count) (many (fun _ => decoder) position count) := by
  induction count generalizing position with
  | zero => exact .refl _
  | succ count ih => exact each.bind fun _ => (ih (position + 1)).bind fun _ => .refl _

def Readable (encode : α → List UInt8) (valid : α → Prop) : Prop :=
  ∀ first second, valid first → valid second → ∀ rest rest', encode first ++ rest = encode second ++ rest' →
    first = second ∧ rest = rest'

variable {encode : α → List UInt8} {valid : α → Prop}

lemma Readable.of_reads
    (reads : ∀ value, valid value → Reads decoder (encode value) value) : Readable encode valid := by
  intro first second validFirst validSecond rest rest' same
  have read := reads first validFirst rest
  rw [same, reads second validSecond rest'] at read
  cases read
  exact ⟨rfl, rfl⟩

lemma Readable.flatMap (each : Readable encode valid) {items items' : List α}
    (size : items.length = items'.length) (sound : ∀ item ∈ items, valid item) (sound' : ∀ item ∈ items', valid item)
    {rest rest' : List UInt8} (same : items.flatMap encode ++ rest = items'.flatMap encode ++ rest') :
    items = items' ∧ rest = rest' := by
  induction items generalizing items' with
  | nil =>
    cases items' with
    | nil => exact ⟨rfl, same⟩
    | cons item others => simp at size
  | cons item others ih =>
    cases items' with
    | nil => simp at size
    | cons item' others' =>
      simp only [flatMap_cons, append_assoc] at same
      obtain ⟨head, later⟩ := each item item' (sound _ mem_cons_self) (sound' _ mem_cons_self) _ _ same
      obtain ⟨tail, after⟩ := ih (Nat.succ.inj size) (fun other member => sound other (mem_cons_of_mem _ member))
        (fun other member => sound' other (mem_cons_of_mem _ member)) later
      exact ⟨by rw [head, tail], after⟩

lemma Readable.counted {count : Nat → List UInt8} {bounded : Nat → Prop}
    (lengths : Readable count bounded) (each : Readable encode valid) :
    Readable (fun items : List α => count items.length ++ items.flatMap encode)
      fun items => bounded items.length ∧ ∀ item ∈ items, valid item := by
  intro first second sound sound' rest rest' same
  simp only [append_assoc] at same
  obtain ⟨size, later⟩ := lengths _ _ sound.1 sound'.1 _ _ same
  exact each.flatMap size sound.2 sound'.2 later

end Decoder

end Dilithion.Lib

/-! Reading a buffer through a pointer. A check compares the bytes left before the end with what is needed;
a read takes bytes wherever the pointer stands, and one that leaves the buffer is an outcome of its own.
A parser that checks before it reads tracks a decoder that runs on the bytes between pointer and end. -/

namespace Dilithion.Lib.PointerReader

open Decoder List

inductive Stop where
  | outside
  | malformed (text : String)
  deriving DecidableEq, Repr

abbrev Parse := Except Stop

def fetch (data : List UInt8) (ptr count : Nat) : Parse (List UInt8) :=
  if ptr + count ≤ data.length then .ok ((data.drop ptr).take count) else .error .outside

def need (finish ptr count : Nat) (text : String) : Parse Unit :=
  if finish - ptr < count then .error (.malformed text) else .ok ()

def window (data : List UInt8) (finish ptr : Nat) : List UInt8 := (data.take finish).drop ptr

variable {α β : Type} {data : List UInt8} {finish ptr count : Nat}

lemma fetch_ok (inside : ptr + count ≤ data.length) : fetch data ptr count = .ok ((data.drop ptr).take count) :=
  if_pos inside

lemma length_window (short : finish ≤ data.length) (ptr : Nat) : (window data finish ptr).length = finish - ptr := by
  rw [window, length_drop, length_take, Nat.min_eq_left short]

lemma drop_window : (window data finish ptr).drop count = window data finish (ptr + count) := by
  rw [window, window, drop_drop]

lemma take_window (room : ptr + count ≤ finish) : (window data finish ptr).take count = (data.drop ptr).take count := by
  rw [window, drop_take, take_take, Nat.min_eq_left (by omega)]

/-- The parser and the decoder read the same value and stop at the same place, or both refuse. -/
inductive Tracks (data : List UInt8) (finish : Nat) : Parse (α × Nat) → Except String (α × List UInt8) → Prop where
  | read (value : α) (ptr : Nat) (inside : ptr ≤ finish) :
      Tracks data finish (.ok (value, ptr)) (.ok (value, window data finish ptr))
  | malformed (text error : String) : Tracks data finish (.error (.malformed text)) (.error error)

lemma Tracks.outcome {parse : Parse (α × Nat)} {decoded : Except String (α × List UInt8)}
    (tracks : Tracks data finish parse decoded) :
    (∃ value ptr, ptr ≤ finish ∧ parse = .ok (value, ptr) ∧ decoded = .ok (value, window data finish ptr)) ∨
      ∃ text error, parse = .error (.malformed text) ∧ decoded = .error error := by
  cases tracks with
  | read value ptr inside => exact .inl ⟨value, ptr, inside, rfl, rfl⟩
  | malformed text error => exact .inr ⟨text, error, rfl, rfl⟩

lemma Tracks.bind {first : Parse (α × Nat)} {decoder : Decoder α}
    {next : α × Nat → Parse (β × Nat)} {next' : α → Decoder β}
    (start : Tracks data finish first (decoder.run (window data finish ptr)))
    (continue_ : ∀ value ptr, ptr ≤ finish →
      Tracks data finish (next (value, ptr)) ((next' value).run (window data finish ptr))) :
    Tracks data finish (first >>= next) ((decoder >>= next').run (window data finish ptr)) := by
  rw [StateT.run_bind]
  generalize decoder.run (window data finish ptr) = decoded at start
  cases start with
  | read value stop inside => exact continue_ value stop inside
  | malformed text error => exact .malformed text error

lemma Tracks.need {next : Parse (β × Nat)} {next' : List UInt8 → Decoder β} {text error : String}
    (short : finish ≤ data.length) (inside : ptr ≤ finish)
    (continue_ : ptr + count ≤ finish →
      Tracks data finish next ((next' ((data.drop ptr).take count)).run (window data finish (ptr + count)))) :
    Tracks data finish (need finish ptr count text >>= fun _ => next)
      ((takeBytes count error >>= next').run (window data finish ptr)) := by
  have size := length_window short ptr
  by_cases room : ptr + count ≤ finish
  · have split := take_append_drop count (window data finish ptr)
    have taken : ((window data finish ptr).take count).length = count := by rw [length_take]; omega
    rw [← split, run_bind_ok (takeBytes_run taken error _), take_window room, drop_window,
      PointerReader.need, if_neg (by omega)]
    exact continue_ room
  · rw [PointerReader.need, if_pos (by omega), StateT.run_bind, takeBytes_short (by omega)]
    exact .malformed text error

lemma Tracks.pure {value : α} (inside : ptr ≤ finish) :
    Tracks data finish (Pure.pure (value, ptr)) ((Pure.pure value : Decoder α).run (window data finish ptr)) :=
      .read value ptr inside

end Dilithion.Lib.PointerReader
