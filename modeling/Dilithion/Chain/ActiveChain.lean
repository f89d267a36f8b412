import Dilithion.Chain.Moves

/-! Chains in the block index: the walk from a block to the first, the fork of two chains, and the paths above it. -/

namespace Dilithion.BlockTree

open Lib ParentTree List

def Stepped (index : BlockMap) : Prop :=
  ∀ hash pindex parent, index.lookup hash = some pindex → pindex.pprev = some parent →
    ∃ above, index.lookup parent = some above ∧ pindex.nHeight = above.nHeight + 1

lemma Stepped.ranked {index : BlockMap} (stepped : Stepped index) :
    Ranked CBlockIndex.pprev CBlockIndex.nHeight index := by
  intro hash pindex parent found link
  obtain ⟨above, at_, height⟩ := stepped hash pindex parent found link
  exact ⟨above, at_, by omega⟩

variable {t : BlockTree}

lemma ancestry_of_lookup (stepped : Stepped t.mapBlockIndex) {hash : Uint256} {pindex : CBlockIndex}
    (found : t.mapBlockIndex.lookup hash = some pindex) :
    t.ancestry (some hash) = (hash, pindex) :: t.ancestry pindex.pprev :=
  chain_of_lookup stepped.ranked found

lemma ancestry_missing {hash : Uint256} (missing : t.mapBlockIndex.lookup hash = none) :
    t.ancestry (some hash) = [] := by
  unfold ancestry chain
  cases t.mapBlockIndex.keys.length with
  | zero => rfl
  | succ fuel => simp [chainFrom, missing]

structure Descent (index : BlockMap) (entries : List (Uint256 × CBlockIndex)) : Prop where
  stored : ∀ entry ∈ entries, index.lookup entry.1 = some entry.2
  steps : entries.IsChain fun a b => a.2.nHeight = b.2.nHeight + 1

lemma descent_ancestry (stepped : Stepped t.mapBlockIndex) (start : Option Uint256) :
    Descent t.mapBlockIndex (t.ancestry start) := by
  cases start with
  | none => exact ⟨by simp [ancestry], by simp [ancestry]⟩
  | some hash =>
    cases found : t.mapBlockIndex.lookup hash with
    | none => rw [ancestry_missing found]; exact ⟨by simp, by simp⟩
    | some pindex =>
      refine stepped.ranked.induction
        (motive := fun hash _ => Descent t.mapBlockIndex (t.ancestry (some hash))) ?_ found
      intro hash pindex found ih
      rw [ancestry_of_lookup stepped found]
      cases link : pindex.pprev with
      | none =>
        refine ⟨?_, by simp [ancestry]⟩
        intro entry member
        simp only [ancestry, chain_none, mem_singleton] at member
        subst member
        exact found
      | some parent =>
        obtain ⟨above, at_, height⟩ := stepped hash pindex parent found link
        have rest := ih parent above link at_
        rw [ancestry_of_lookup stepped at_] at rest ⊢
        refine ⟨?_, isChain_cons_cons.mpr ⟨height, rest.steps⟩⟩
        intro entry member
        rcases mem_cons.mp member with rfl | later
        · exact found
        · exact rest.stored entry later

variable {index : BlockMap} {left right : List (Uint256 × CBlockIndex)} {entry : Uint256 × CBlockIndex}

lemma Descent.tail (descent : Descent index (entry :: left)) : Descent index left :=
  ⟨fun other member => descent.stored other (mem_cons_of_mem _ member), descent.steps.tail⟩

lemma Descent.lower {entry other : Uint256 × CBlockIndex} (descent : Descent index (entry :: left))
    (member : other ∈ left) : other.2.nHeight < entry.2.nHeight := by
  induction left generalizing entry with
  | nil => cases member
  | cons next rest ih =>
    have step := (isChain_cons_cons.mp descent.steps).1
    rcases mem_cons.mp member with rfl | later
    · omega
    · have := ih descent.tail later
      omega

/-- Going up to a height that the chain passes through or starts below. -/
lemma Descent.dropWhile (descent : Descent index left) (height : Int) :
    Descent index (left.dropWhile fun entry => decide (height < entry.2.nHeight)) :=
  ⟨fun entry member => descent.stored entry ((dropWhile_sublist _).subset member),
    descent.steps.suffix (dropWhile_suffix _)⟩

lemma Descent.eq_of_hash {a b : Uint256 × CBlockIndex} (inLeft : Descent index left) (inRight : Descent index right)
    (memberA : a ∈ left) (memberB : b ∈ right) (same : a.1 = b.1) : a = b := by
  have atA := inLeft.stored a memberA
  have atB := inRight.stored b memberB
  rw [same, atB] at atA
  exact Prod.ext same (Option.some.inj atA).symm

def above (entries : List (Uint256 × CBlockIndex)) (hash : Uint256) : List (Uint256 × CBlockIndex) :=
  entries.takeWhile fun entry => decide (entry.1 ≠ hash)

structure Meets (left right : List (Uint256 × CBlockIndex)) (hash : Uint256) : Prop where
  onLeft : ∃ entry ∈ left, entry.1 = hash
  onRight : ∃ entry ∈ right, entry.1 = hash
  apart : ∀ a ∈ above left hash, ∀ b ∈ above right hash, a.1 ≠ b.1

variable {hash : Uint256}

lemma Meets.symm (meets : Meets left right hash) : Meets right left hash :=
  ⟨meets.onRight, meets.onLeft, fun b inRight a inLeft same => meets.apart a inLeft b inRight same.symm⟩

lemma above_cons (other : entry.1 ≠ hash) : above (entry :: left) hash = entry :: above left hash := by
  simp [above, other]

lemma Descent.head_ne (descent : Descent index (entry :: left))
    (inside : ∃ other ∈ left, other.1 = hash) : entry.1 ≠ hash := by
  obtain ⟨other, member, rfl⟩ := inside
  intro same
  have equal := descent.eq_of_hash descent.tail mem_cons_self member same
  have := descent.lower member
  rw [equal] at this
  omega

lemma Descent.nodup (descent : Descent index left) : (left.map Prod.fst).Nodup := by
  induction left with
  | nil => exact nodup_nil
  | cons entry rest ih =>
    refine nodup_cons.mpr ⟨?_, ih descent.tail⟩
    intro again
    exact descent.head_ne (mem_map.mp again) rfl

/-- Two chains that start at one height meet where they first agree. -/
lemma meets_of_find (inLeft : Descent index left) (inRight : Descent index right)
    (level : ∀ a ∈ left.head?, ∀ b ∈ right.head?, a.2.nHeight = b.2.nHeight)
    {pair : (Uint256 × CBlockIndex) × (Uint256 × CBlockIndex)}
    (found : (left.zip right).find? (fun pair => decide (pair.1.1 = pair.2.1)) = some pair) :
    Meets left right pair.1.1 := by
  induction left generalizing right with
  | nil => simp at found
  | cons a left ih =>
    cases right with
    | nil => simp at found
    | cons b right =>
      have sameHeight := level a rfl b rfl
      by_cases same : a.1 = b.1
      · simp only [zip_cons_cons, find?_cons, same, decide_true, Option.some.injEq] at found
        subst found
        exact ⟨⟨a, mem_cons_self, rfl⟩, ⟨b, mem_cons_self, same.symm⟩, by simp [above]⟩
      · simp only [zip_cons_cons, find?_cons, same, decide_false] at found
        have below : ∀ c ∈ left.head?, ∀ d ∈ right.head?, c.2.nHeight = d.2.nHeight := by
          intro c atC d atD
          have stepA := isChain_cons.mp inLeft.steps |>.1 c atC
          have stepB := isChain_cons.mp inRight.steps |>.1 d atD
          omega
        have meets := ih inLeft.tail inRight.tail below found
        refine ⟨meets.onLeft.imp fun _ => .imp_left (mem_cons_of_mem _),
          meets.onRight.imp fun _ => .imp_left (mem_cons_of_mem _), ?_⟩
        rw [above_cons (inLeft.head_ne meets.onLeft), above_cons (inRight.head_ne meets.onRight)]
        -- the two heads differ, and either is higher than everything below the other
        intro c inC d inD sameHash
        rcases mem_cons.mp inC with rfl | lowC <;> rcases mem_cons.mp inD with rfl | lowD
        · exact same sameHash
        · have member := (takeWhile_sublist _).subset lowD
          have equal := inLeft.eq_of_hash inRight mem_cons_self (mem_cons_of_mem _ member) sameHash
          have := inRight.lower member
          rw [← equal] at this
          omega
        · have member := (takeWhile_sublist _).subset lowC
          have equal := inLeft.eq_of_hash inRight (mem_cons_of_mem _ member) mem_cons_self sameHash
          have := inLeft.lower member
          rw [equal] at this
          omega
        · exact meets.apart c lowC d lowD sameHash

lemma Meets.of_dropWhile (inLeft : Descent index left) (inRight : Descent index right) (height : Int)
    (low : ∀ b ∈ right, ¬ height < b.2.nHeight)
    (meets : Meets (left.dropWhile fun entry => decide (height < entry.2.nHeight)) right hash) :
    Meets left right hash := by
  induction left with
  | nil => exact meets
  | cons a left ih =>
    by_cases high : height < a.2.nHeight
    · rw [dropWhile_cons, if_pos (decide_eq_true high)] at meets
      have tail := ih inLeft.tail meets
      refine ⟨tail.onLeft.imp fun _ => .imp_left (mem_cons_of_mem _), tail.onRight, ?_⟩
      rw [above_cons (inLeft.head_ne tail.onLeft)]
      intro c inC d inD sameHash
      rcases mem_cons.mp inC with rfl | lowC
      · have member := (takeWhile_sublist _).subset inD
        have equal := inLeft.eq_of_hash inRight mem_cons_self member sameHash
        exact low d member (equal ▸ high)
      · exact tail.apart c lowC d inD sameHash
    · rwa [dropWhile_cons, if_neg (by simpa using high)] at meets

/-- A chain that starts at the height or above it passes through it. -/
lemma Descent.head_dropWhile (descent : Descent index (entry :: left)) {height : Int}
    (high : height ≤ entry.2.nHeight) :
    ∀ b ∈ ((entry :: left).dropWhile fun entry => decide (height < entry.2.nHeight)).head?, b.2.nHeight = height := by
  induction left generalizing entry with
  | nil =>
    intro b atB
    by_cases higher : height < entry.2.nHeight
    · simp [higher] at atB
    · rw [dropWhile_cons, if_neg (by simpa using higher)] at atB
      cases atB
      omega
  | cons next rest ih =>
    intro b atB
    by_cases higher : height < entry.2.nHeight
    · rw [dropWhile_cons, if_pos (decide_eq_true higher)] at atB
      have step := (isChain_cons_cons.mp descent.steps).1
      exact ih descent.tail (by omega) b atB
    · rw [dropWhile_cons, if_neg (by simpa using higher)] at atB
      cases atB
      omega

section

variable (stepped : Stepped t.mapBlockIndex)

include stepped

lemma findFork_meets {first second fork : Uint256} (found : t.findFork first second = some fork) :
    Meets (t.ancestry (some first)) (t.ancestry (some second)) fork := by
  have inLeft := descent_ancestry stepped (some first)
  have inRight := descent_ancestry stepped (some second)
  simp only [findFork] at found
  generalize t.ancestry (some first) = left at *
  cases right : t.ancestry (some second) with
  | nil => rw [right] at found; cases found
  | cons top rest =>
    simp only [right] at found
    rw [right] at inRight
    cases climbed : left.dropWhile fun entry => decide (top.2.nHeight < entry.2.nHeight) with
    | nil => rw [climbed] at found; cases found
    | cons level below =>
      simp only [climbed] at found
      obtain ⟨pair, at_, rfl⟩ := Option.map_eq_some_iff.mp found
      have inClimbed := inLeft.dropWhile top.2.nHeight
      rw [climbed] at inClimbed
      have reached : ¬ top.2.nHeight < level.2.nHeight := by
        have := head?_dropWhile_not (fun entry : Uint256 × CBlockIndex => decide (top.2.nHeight < entry.2.nHeight)) left
        rw [climbed] at this
        simpa using this
      refine Meets.of_dropWhile inLeft inRight top.2.nHeight ?_ ?_
      · intro b member
        rcases mem_cons.mp member with rfl | later
        · omega
        · have := inRight.lower later
          omega
      · rw [climbed]
        refine (Meets.of_dropWhile inRight inClimbed level.2.nHeight ?_ (Meets.symm ?_)).symm
        · intro b member
          rcases mem_cons.mp member with rfl | later
          · omega
          · have := inClimbed.lower later
            omega
        · refine meets_of_find inClimbed (inRight.dropWhile _) ?_ at_
          intro a atA b atB
          cases atA
          exact (inRight.head_dropWhile (by omega) b atB).symm

lemma ancestry_split {start : Option Uint256} (inside : ∃ entry ∈ t.ancestry start, entry.1 = hash) :
    t.ancestry start = above (t.ancestry start) hash ++ t.ancestry (some hash) := by
  cases start with
  | none => simp [ancestry] at inside
  | some first =>
    cases found : t.mapBlockIndex.lookup first with
    | none => rw [ancestry_missing found] at inside; simp at inside
    | some pindex =>
      revert inside
      refine stepped.ranked.induction (motive := fun first _ =>
        (∃ entry ∈ t.ancestry (some first), entry.1 = hash) →
          t.ancestry (some first) = above (t.ancestry (some first)) hash ++ t.ancestry (some hash)) ?_ found
      intro first pindex found ih inside
      by_cases same : first = hash
      · subst same
        have nothing : above (t.ancestry (some first)) first = [] := by
          rw [ancestry_of_lookup stepped found]
          simp [above]
        rw [nothing, nil_append]
      · rw [ancestry_of_lookup stepped found] at inside ⊢
        obtain ⟨entry, member, at_⟩ := inside
        rcases mem_cons.mp member with rfl | later
        · exact absurd at_ same
        · cases link : pindex.pprev with
          | none => rw [link] at later; simp [ancestry] at later
          | some parent =>
            obtain ⟨up, atParent, -⟩ := stepped first pindex parent found link
            have rest := ih parent up link atParent ⟨entry, link ▸ later, at_⟩
            rw [above_cons same, cons_append, ← rest]

lemma pathFrom_eq {start fork : Uint256} {path : List Uint256} (found : t.pathFrom start fork = some path) :
    path = (above (t.ancestry (some start)) fork).map Prod.fst ∧
      (t.ancestry (some start)).map Prod.fst = path ++ (t.ancestry (some fork)).map Prod.fst := by
  simp only [pathFrom] at found
  split at found
  next inside =>
    cases found
    have same : ((t.ancestry (some start)).map Prod.fst).takeWhile (fun hash => decide (hash ≠ fork)) =
        (above (t.ancestry (some start)) fork).map Prod.fst := takeWhile_map ..
    refine ⟨same, ?_⟩
    rw [same, ← map_append, ← ancestry_split stepped (mem_map.mp inside)]
  · cases found

end

end Dilithion.BlockTree

/-! The active chain as the index records it: forward links from each block of the chain to the next, and
the flag `BLOCK_VALID_CHAIN` on exactly its blocks. Connecting a block pushes it on the chain so recorded
and disconnecting pops it, and neither changes anything else of an entry. -/

namespace Dilithion

open Lib CChainState CBlockIndex List Option Table

namespace CBlockIndex

def blockConnected : UInt32 := blockValidChain ||| blockHaveData

variable (pindex : CBlockIndex)

def bare : CBlockIndex := { pindex with pnext := none, nStatus := 0 }

def core : CBlockIndex := { pindex with pnext := none, nStatus := pindex.nStatus &&& ~~~blockConnected }

variable {a b : CBlockIndex}

lemma bare_of_core (same : a.core = b.core) : a.bare = b.bare := by
  obtain ⟨header, pprev, -, height, work, -, sequence, version, address⟩ := mk.inj same
  exact mk.injEq .. ▸ ⟨header, pprev, rfl, height, work, rfl, sequence, version, address⟩

lemma pprev_of_bare (same : a.bare = b.bare) : a.pprev = b.pprev := (mk.inj same).2.1

lemma nHeight_of_bare (same : a.bare = b.bare) : a.nHeight = b.nHeight :=
  (mk.inj same).2.2.2.1

lemma core_raise_connected : (pindex.raise blockConnected).core = pindex.core := by
  have status := status_raise blockConnected (~~~blockConnected) pindex
  rw [show blockConnected &&& ~~~blockConnected = 0 from rfl, UInt32.or_zero] at status
  exact mk.injEq .. ▸ ⟨rfl, rfl, rfl, rfl, rfl, status, rfl, rfl, rfl⟩

lemma core_clear_validChain : (pindex.clear blockValidChain).core = pindex.core := by
  have status := status_clear blockValidChain (~~~blockConnected) pindex
  exact mk.injEq .. ▸ ⟨rfl, rfl, rfl, rfl, rfl, status, rfl, rfl, rfl⟩

lemma validChain_raise {flags : UInt32} (other : flags &&& blockValidChain = 0) (pindex : CBlockIndex) :
    (pindex.raise flags).validChain = pindex.validChain := by
  rw [validChain, validChain, status_raise, other, UInt32.or_zero]

lemma validChain_raise_connected : (pindex.raise blockConnected).validChain = true := by
  rw [validChain, status_raise, decide_eq_true_eq, Ne, UInt32.or_eq_zero_iff]
  exact fun both => absurd both.2 (by decide)

lemma validChain_clear : (pindex.clear blockValidChain).validChain = false := by
  rw [validChain, status_clear, show ~~~blockValidChain &&& blockValidChain = 0 from rfl, UInt32.and_zero]
  rfl

lemma and_flag {status flag : UInt32} (bit : Nat) (flagBit : flag.toNat = 2 ^ bit) (set : status &&& flag ≠ 0) :
    status &&& flag = flag := by
  have value := Nat.and_two_pow status.toNat bit
  rw [← flagBit, ← UInt32.toNat_and] at value
  apply UInt32.toNat_inj.mp
  cases present : status.toNat.testBit bit with
  | true => rw [value, present, Bool.toNat_true, Nat.one_mul]
  | false =>
    rw [present, Bool.toNat_false, Nat.zero_mul] at value
    exact absurd (UInt32.toNat_inj.mp value) set

lemma and_or_distrib (status a b : UInt32) : status &&& (a ||| b) = (status &&& a) ||| (status &&& b) := by
  apply UInt32.toNat_inj.mp
  simp only [UInt32.toNat_and, UInt32.toNat_or, Nat.and_or_distrib_left]

lemma status_of_connected {pindex : CBlockIndex} (chain : pindex.validChain = true) (data : pindex.haveData = true) :
    pindex.nStatus = (pindex.nStatus &&& ~~~blockConnected) ||| blockConnected := by
  have chainFlag : pindex.nStatus &&& blockValidChain = blockValidChain := and_flag 2 rfl (of_decide_eq_true chain)
  have dataFlag : pindex.nStatus &&& blockHaveData = blockHaveData := and_flag 3 rfl (of_decide_eq_true data)
  have flags : pindex.nStatus &&& blockConnected = blockConnected := by
    rw [blockConnected, and_or_distrib, chainFlag, dataFlag]
  conv_lhs => rw [← UInt32.and_neg_one (a := pindex.nStatus),
    show (-1 : UInt32) = ~~~blockConnected ||| blockConnected from rfl,
    and_or_distrib, flags]

/-- A connected block is determined by its core and its forward link. -/
lemma eq_of_core (same : a.core = b.core) (next : a.pnext = b.pnext)
    (chainA : a.validChain = true) (chainB : b.validChain = true) (dataA : a.haveData = true)
    (dataB : b.haveData = true) :
    a = b := by
  obtain ⟨header, pprev, -, height, work, rest, sequence, version, address⟩ := mk.inj same
  have status : a.nStatus = b.nStatus := by
    rw [status_of_connected chainA dataA, status_of_connected chainB dataB, rest]
  exact mk.injEq .. ▸ ⟨header, pprev, next, height, work, status, sequence, version, address⟩

end CBlockIndex

namespace CChainState

open CBlockIndex

def linkEntry (hash : Uint256) (pprev : Option Uint256) (key : Uint256) (entry : CBlockIndex) : CBlockIndex :=
  let entry := if pprev = some key then setNext (some hash) entry else entry
  if key = hash then entry.raise blockConnected else entry

def unlinkEntry (hash : Uint256) (pprev : Option Uint256) (key : Uint256) (entry : CBlockIndex) : CBlockIndex :=
  let entry := if pprev = some key then setNext none entry else entry
  if key = hash then (setNext none entry).clear blockValidChain else entry

variable {index : BlockMap} {hash key : Uint256} {pprev : Option Uint256}

lemma lookup_modifyBoth (above own : CBlockIndex → CBlockIndex) : ((match pprev with
    | none => index
    | some parent => index.modify parent above).modify hash own).lookup key =
    (index.lookup key).map fun entry =>
      if key = hash then own (if pprev = some key then above entry else entry)
      else if pprev = some key then above entry else entry := by
  cases pprev with
  | none =>
    rw [lookup_modify]
    cases index.lookup key <;> by_cases here : key = hash <;> simp [here]
  | some parent =>
    rw [lookup_modify, lookup_modify]
    have flip : (some parent = some key) = (key = parent) := propext (some_inj.trans eq_comm)
    cases index.lookup key <;> simp only [Option.map, flip] <;> split_ifs <;> rfl

lemma lookup_linkIndex : (linkIndex index hash pprev).lookup key = (index.lookup key).map (linkEntry hash pprev key) :=
  lookup_modifyBoth _ _

lemma lookup_unlinkIndex :
    (unlinkIndex index hash pprev).lookup key = (index.lookup key).map (unlinkEntry hash pprev key) :=
  lookup_modifyBoth _ _

variable (entry : CBlockIndex)

@[simp] lemma pnext_linkEntry :
    (linkEntry hash pprev key entry).pnext = if pprev = some key then some hash else entry.pnext := by
  unfold linkEntry
  split_ifs <;> rfl

@[simp] lemma validChain_linkEntry : (linkEntry hash pprev key entry).validChain =
    (decide (key = hash) || entry.validChain) := by
  unfold linkEntry
  by_cases own : key = hash
  · simp [own, validChain_raise_connected]
  · simp only [own, if_false, decide_false, Bool.false_or]
    split_ifs <;> rfl

@[simp] lemma haveData_linkEntry :
    (linkEntry hash pprev key entry).haveData = (decide (key = hash) || entry.haveData) := by
  unfold linkEntry
  by_cases own : key = hash
  · simp [own, haveData_raise blockConnected _ (.inr (by decide))]
  · simp only [own, if_false, decide_false, Bool.false_or]
    split_ifs <;> rfl

@[simp] lemma core_linkEntry : (linkEntry hash pprev key entry).core = entry.core := by
  unfold linkEntry
  split_ifs <;> simp only [core_raise_connected] <;> rfl

@[simp] lemma pnext_unlinkEntry :
    (unlinkEntry hash pprev key entry).pnext = if pprev = some key ∨ key = hash then none else entry.pnext := by
  unfold unlinkEntry
  by_cases up : pprev = some key <;> by_cases own : key = hash <;> simp [up, own, setNext, clear]

@[simp] lemma validChain_unlinkEntry :
    (unlinkEntry hash pprev key entry).validChain = (!decide (key = hash) && entry.validChain) := by
  unfold unlinkEntry
  by_cases own : key = hash
  · simp [own, validChain_clear]
  · simp only [own, if_false, decide_false, Bool.not_false, Bool.true_and]
    split_ifs <;> rfl

@[simp] lemma haveData_unlinkEntry : (unlinkEntry hash pprev key entry).haveData = entry.haveData := by
  have cleared : ∀ entry : CBlockIndex, (entry.clear blockValidChain).haveData = entry.haveData := by
    intro entry
    rw [haveData, status_clear]
    rfl
  unfold unlinkEntry
  split_ifs <;> simp only [cleared] <;> rfl

@[simp] lemma core_unlinkEntry : (unlinkEntry hash pprev key entry).core = entry.core := by
  unfold unlinkEntry
  split_ifs <;> simp only [core_clear_validChain] <;> rfl

end CChainState

namespace BlockTree

open CBlockIndex

def activeChain (t : BlockTree) : List Uint256 := (t.ancestry t.pindexTip).map Prod.fst

/-- The block after `key` on a chain listed from the tip down. -/
def successor : List Uint256 → Uint256 → Option Uint256
  | next :: hash :: rest, key => if key = hash then some next else successor (hash :: rest) key
  | _, _ => none

lemma successor_cons (hash : Uint256) (chain : List Uint256) (key : Uint256) :
    successor (hash :: chain) key = if chain.head? = some key then some hash else successor chain key := by
  cases chain with
  | nil => rfl
  | cons parent rest =>
    have flip : ((parent :: rest).head? = some key) = (key = parent) :=
      propext (some_inj.trans eq_comm)
    rw [successor]
    simp only [flip]

variable {key : Uint256} {chain : List Uint256}

lemma successor_of_not_mem (off : key ∉ chain) : successor chain key = none := by
  induction chain with
  | nil => rfl
  | cons hash rest ih =>
    rw [successor_cons, if_neg, ih (not_mem_of_not_mem_cons off)]
    intro head
    exact off (mem_cons_of_mem _ (mem_of_head? head))

lemma mem_of_successor {next : Uint256} (at_ : successor chain key = some next) : next ∈ chain := by
  induction chain with
  | nil => cases at_
  | cons hash rest ih =>
    rw [successor_cons] at at_
    split at at_
    · cases at_
      exact mem_cons_self
    · exact mem_cons_of_mem _ (ih at_)

lemma successor_head (distinct : chain.Nodup) (head : chain.head? = some key) : successor chain key = none := by
  cases chain with
  | nil => cases head
  | cons hash rest =>
    cases head
    have off := (nodup_cons.mp distinct).1
    rw [successor_cons, if_neg (fun top => off (mem_of_head? top)), successor_of_not_mem off]

structure Placed (chain : List Uint256) (key : Uint256) (entry : CBlockIndex) : Prop where
  next : entry.pnext = successor chain key
  valid : entry.validChain = true ↔ key ∈ chain
  data : key ∈ chain → entry.haveData = true

def Marked (index : BlockMap) (chain : List Uint256) : Prop :=
  ∀ key entry, index.lookup key = some entry → Placed chain key entry

variable {entry : CBlockIndex}

lemma Placed.link (placed : Placed chain key entry)
    (hash : Uint256) : Placed (hash :: chain) key (linkEntry hash chain.head? key entry) := by
  refine ⟨?_, ?_, ?_⟩
  · rw [pnext_linkEntry, successor_cons, placed.next]
  · simp [placed.valid]
  · intro member
    rcases mem_cons.mp member with own | on
    · simp [own]
    · simp [placed.data on]

lemma Placed.unlink {hash : Uint256} (distinct : (hash :: chain).Nodup) (placed : Placed (hash :: chain) key entry) :
    Placed chain key (unlinkEntry hash chain.head? key entry) := by
  obtain ⟨off, distinct⟩ := nodup_cons.mp distinct
  refine ⟨?_, ?_, ?_⟩
  · rw [pnext_unlinkEntry, placed.next, successor_cons]
    by_cases up : chain.head? = some key
    · rw [if_pos (.inl up), successor_head distinct up]
    · by_cases own : key = hash
      · rw [if_pos (.inr own), own, successor_of_not_mem off]
      · rw [if_neg (by simp [up, own]), if_neg up]
  · by_cases own : key = hash
    · simp [own, off]
    · simp [own, placed.valid]
  · intro on
    rw [haveData_unlinkEntry]
    exact placed.data (mem_cons_of_mem _ on)

variable {index : BlockMap} {chain : List Uint256} {hash : Uint256}

lemma Marked.link (marked : Marked index chain) (hash : Uint256) :
    Marked (linkIndex index hash chain.head?) (hash :: chain) := by
  intro key entry at_
  rw [lookup_linkIndex] at at_
  obtain ⟨old, found, rfl⟩ := map_eq_some_iff.mp at_
  exact (marked key old found).link hash

lemma Marked.unlink (marked : Marked index (hash :: chain)) (distinct : (hash :: chain).Nodup) :
    Marked (unlinkIndex index hash chain.head?) chain := by
  intro key entry at_
  rw [lookup_unlinkIndex] at at_
  obtain ⟨old, found, rfl⟩ := map_eq_some_iff.mp at_
  exact (marked key old found).unlink distinct

def LeadsTo (t : BlockTree) : Uint256 → Uint256 → Prop :=
  Relation.ReflTransGen fun hash next => ∃ pindex, t.getBlockIndex hash = some pindex ∧ pindex.pnext = some next

variable {t : BlockTree}

lemma Marked.leadsTo (marked : Marked t.mapBlockIndex chain) {first hash : Uint256}
    (start : first ∈ chain) (leads : LeadsTo t first hash) : hash ∈ chain := by
  induction leads with
  | refl => exact start
  | tail _ step _ =>
    obtain ⟨pindex, found, next⟩ := step
    exact mem_of_successor ((marked _ pindex found).next.symm.trans next)

variable {change : CBlockIndex → CBlockIndex}

lemma Marked.modify (marked : Marked index chain) (key : Uint256)
    (next : ∀ entry, (change entry).pnext = entry.pnext) (valid : ∀ entry, (change entry).validChain = entry.validChain)
    (data : ∀ entry : CBlockIndex, entry.haveData = true → (change entry).haveData = true) :
    Marked (index.modify key change) chain := by
  intro other entry at_
  rw [lookup_modify] at at_
  split at at_
  · obtain ⟨old, found, rfl⟩ := map_eq_some_iff.mp at_
    have placed := marked other old found
    exact ⟨by rw [next, placed.next], by rw [valid, placed.valid], fun on => data old (placed.data on)⟩
  · exact marked other entry at_

/-- `after` has the entries of `before` with other forward links and statuses; of the `spared` ones, only
the flags of connected blocks may differ. -/
def Relabelled (spared : Uint256 → Prop) (before after : BlockMap) : Prop :=
  ∀ key, (after.lookup key).map bare = (before.lookup key).map bare ∧
    (spared key → (after.lookup key).map core = (before.lookup key).map core)

variable {spared : Uint256 → Prop} {before middle after : BlockMap}

lemma Relabelled.refl (spared : Uint256 → Prop) (index : BlockMap) : Relabelled spared index index :=
  fun _ => ⟨rfl, fun _ => rfl⟩

lemma Relabelled.trans (first : Relabelled spared before middle) (second : Relabelled spared middle after) :
    Relabelled spared before after :=
  fun key => ⟨(second key).1.trans (first key).1, fun kept => ((second key).2 kept).trans ((first key).2 kept)⟩

lemma relabelled_of_map {change : Uint256 → CBlockIndex → CBlockIndex}
    (at_ : ∀ key, after.lookup key = (before.lookup key).map (change key))
    (kept : ∀ key entry, (change key entry).core = entry.core) : Relabelled spared before after := by
  intro key
  have same : (after.lookup key).map core = (before.lookup key).map core := by
    rw [at_, Option.map_map]
    exact congrArg (Option.map · _) (funext (kept key))
  refine ⟨?_, fun _ => same⟩
  rw [at_, Option.map_map]
  exact congrArg (Option.map · _) (funext fun entry => bare_of_core (kept key entry))

lemma relabelled_modify (exposed : ¬ spared key)
    (kept : ∀ entry, (change entry).bare = entry.bare) : Relabelled spared index (index.modify key change) := by
  intro other
  rw [lookup_modify]
  split
  next same =>
    refine ⟨?_, fun isSpared => absurd (same ▸ isSpared) exposed⟩
    rw [Option.map_map]
    exact congrArg (Option.map · _) (funext kept)
  · exact ⟨rfl, fun _ => rfl⟩

section

variable (relabelled : Relabelled spared before after)

include relabelled

lemma Relabelled.lookup {old : CBlockIndex}
    (found : before.lookup key = some old) : ∃ entry, after.lookup key = some entry ∧ entry.bare = old.bare := by
  have same := (relabelled key).1
  rw [found] at same
  exact map_eq_some_iff.mp same

lemma Relabelled.lookup_before
    (found : after.lookup key = some entry) : ∃ old, before.lookup key = some old ∧ entry.bare = old.bare := by
  have same := (relabelled key).1
  rw [found] at same
  obtain ⟨old, at_, equal⟩ := map_eq_some_iff.mp same.symm
  exact ⟨old, at_, equal.symm⟩

lemma Relabelled.stepped (stepped : Stepped before) : Stepped after := by
  intro hash pindex parent found link
  obtain ⟨old, at_, same⟩ := relabelled.lookup_before found
  obtain ⟨up, atParent, height⟩ := stepped hash old parent at_ (pprev_of_bare same ▸ link)
  obtain ⟨upper, atUpper, sameUp⟩ := relabelled.lookup atParent
  exact ⟨upper, atUpper, by rw [nHeight_of_bare same, nHeight_of_bare sameUp, height]⟩

end

/-- Every block of the list is stored and has the next one for its parent. -/
def Path (index : BlockMap) : List Uint256 → Prop
  | [] => True
  | hash :: rest => (∃ pindex, index.lookup hash = some pindex ∧ pindex.pprev = rest.head?) ∧ Path index rest

lemma Relabelled.path (relabelled : Relabelled spared before after) (path : Path before chain) :
    Path after chain := by
  induction chain with
  | nil => trivial
  | cons hash rest ih =>
    obtain ⟨⟨pindex, found, link⟩, path⟩ := path
    obtain ⟨entry, at_, same⟩ := relabelled.lookup found
    exact ⟨⟨entry, at_, by rw [pprev_of_bare same, link]⟩, ih path⟩

lemma path_ancestry (stepped : Stepped t.mapBlockIndex) (start : Option Uint256) :
    Path t.mapBlockIndex ((t.ancestry start).map Prod.fst) := by
  cases start with
  | none => simp [ancestry, Path]
  | some hash =>
    cases found : t.mapBlockIndex.lookup hash with
    | none => rw [ancestry_missing found]; trivial
    | some pindex =>
      refine stepped.ranked.induction
        (motive := fun hash _ => Path t.mapBlockIndex ((t.ancestry (some hash)).map Prod.fst)) ?_ found
      intro hash pindex found ih
      rw [ancestry_of_lookup stepped found]
      cases link : pindex.pprev with
      | none => exact ⟨⟨pindex, found, by simp [link, ancestry]⟩, by simp [ancestry, Path]⟩
      | some parent =>
        obtain ⟨up, at_, -⟩ := stepped hash pindex parent found link
        refine ⟨⟨pindex, found, ?_⟩, ih parent up link at_⟩
        rw [link, ancestry_of_lookup stepped at_]
        rfl

lemma Path.ancestry_eq (stepped : Stepped t.mapBlockIndex)
    (path : Path t.mapBlockIndex chain) : (t.ancestry chain.head?).map Prod.fst = chain := by
  induction chain with
  | nil => simp [ancestry]
  | cons hash rest ih =>
    obtain ⟨⟨pindex, found, link⟩, path⟩ := path
    rw [head?_cons, ancestry_of_lookup stepped found, link, map_cons, ih path]

structure Active (t : BlockTree) : Prop where
  stepped : Stepped t.mapBlockIndex
  marked : Marked t.mapBlockIndex t.activeChain

lemma Active.path (active : Active t) : Path t.mapBlockIndex t.activeChain :=
  path_ancestry active.stepped t.pindexTip

lemma Active.nodup (active : Active t) : t.activeChain.Nodup :=
  (descent_ancestry active.stepped t.pindexTip).nodup

lemma head_ancestry (stepped : Stepped t.mapBlockIndex) {hash : Uint256} {pindex : CBlockIndex}
    (found : t.mapBlockIndex.lookup hash = some pindex) :
    ((t.ancestry (some hash)).map Prod.fst).head? = some hash := by
  rw [ancestry_of_lookup stepped found]
  rfl

lemma activeChain_of_tip (stepped : Stepped t.mapBlockIndex) {tip : Uint256} {pindexTip : CBlockIndex}
    (atTip : t.pindexTip = some tip) (found : t.mapBlockIndex.lookup tip = some pindexTip) :
    t.activeChain = tip :: (t.ancestry pindexTip.pprev).map Prod.fst := by
  rw [activeChain, atTip, ancestry_of_lookup stepped found, map_cons]

lemma Relabelled.ancestry_eq {u : BlockTree} (relabelled : Relabelled spared t.mapBlockIndex u.mapBlockIndex)
    (stepped : Stepped t.mapBlockIndex) (start : Option Uint256) :
    (u.ancestry start).map Prod.fst = (t.ancestry start).map Prod.fst := by
  cases start with
  | none => simp [ancestry]
  | some hash =>
    cases found : t.mapBlockIndex.lookup hash with
    | none =>
      have missing : u.mapBlockIndex.lookup hash = none := by
        have same := (relabelled hash).1
        rw [found] at same
        exact map_eq_none_iff.mp same
      rw [ancestry_missing found, ancestry_missing missing]
    | some pindex =>
      have path := relabelled.path (path_ancestry stepped (some hash))
      have same := path.ancestry_eq (relabelled.stepped stepped)
      rwa [head_ancestry stepped found] at same

/-- The tests of one entry that `Active` asks for. -/
def activeEntry (t : BlockTree) (hash : Uint256) (pindex : CBlockIndex) : Bool :=
  pindex.pprev.all (fun parent => (t.mapBlockIndex.lookup parent).any fun above =>
    decide (pindex.nHeight = above.nHeight + 1)) &&
  decide (pindex.pnext = successor t.activeChain hash) &&
  (pindex.validChain == decide (hash ∈ t.activeChain)) &&
  (!decide (hash ∈ t.activeChain) || pindex.haveData)

lemma active_of_entries
    (entries : ∀ entry ∈ t.mapBlockIndex.entries, t.activeEntry entry.1 entry.2 = true) : Active t := by
  have each := forall_lookup (fun hash pindex => t.activeEntry hash pindex = true) entries
  simp only [activeEntry, Bool.and_eq_true, Option.all_eq_true, Option.any_eq_true, decide_eq_true_eq, beq_iff_eq,
    Bool.or_eq_true, Bool.not_eq_true', decide_eq_false_iff_not] at each
  refine ⟨?_, ?_⟩
  · intro hash pindex parent found link
    exact (each hash pindex found).1.1.1 parent link
  · intro hash pindex found
    obtain ⟨⟨⟨-, next⟩, valid⟩, data⟩ := each hash pindex found
    exact ⟨next, by rw [valid, decide_eq_true_eq], fun on => data.resolve_left (not_not_intro on)⟩

end BlockTree

end Dilithion
