import Dilithion.Script.Interpreter

/-! Rules for scripts. `Ensures` says what holds of the stack and the open branches at the end of every
run that is not aborted; there is one rule for each opcode of the recognised scripts, over an arbitrary
stack. The number of opcodes counted so far plays no part. -/

namespace Dilithion

open Lib Opcode ScriptState LittleEndian Decoder List UInt8 Nat

section

variable (H : HashFunctions) (flags : ScriptVerifyFlags) (checker : SignatureChecker)

/-- Every run of the script from this stack and these branches that ends without an error ends in `post`. -/
def Ensures (script : Bytes) (stack : List Bytes) (vfExec : List Bool) (post : List Bytes → List Bool → Prop) : Prop :=
  ∀ count steps final, script.length ≤ steps →
    evalSteps H flags checker steps ⟨stack, vfExec, count⟩ script = .ok final →
    post final.stack final.vfExec

end

variable {H : HashFunctions} {flags : ScriptVerifyFlags} {checker : SignatureChecker}
  {rest : Bytes} {stack : List Bytes}
  {vfExec : List Bool} {post : List Bytes → List Bool → Prop}

lemma Ensures.nil (holds : post stack vfExec) : Ensures H flags checker [] stack vfExec post := by
  intro count steps final enough done
  rw [evalSteps] at done
  cases done
  exact holds

lemma ofByte_push {size : Nat} (positive : 0 < size) (small : size < 0x4c) : ofByte (ofNat size) = .push size := by
  have value : (ofNat size).toNat = size := toNat_ofNat_of_lt' (show size < 2 ^ 8 by omega)
  have nonzero : ofNat size ≠ 0x00 := fun same => by
    have := congrArg toNat same
    simp at this
    omega
  have below : ofNat size < 0x4c := lt_iff_toNat_lt.mpr (by rw [value]; exact small)
  unfold ofByte
  rw [if_neg nonzero, if_pos below, value]

lemma scriptStep_push {data : Bytes} (positive : 0 < data.length) (small : data.length < 0x4c) (state : ScriptState) :
    scriptStep H flags checker state (ofNat data.length) (data ++ rest) =
      .ok (if state.fExec then state.pushed data else state, rest) := by
  have fits : ¬ maxScriptElementSize < data.length := by rw [maxScriptElementSize]; omega
  rw [scriptStep, ofByte_push positive small]
  simp only [pushBytes, length_append, if_neg fits, take_left', drop_left']
  rw [if_neg (by omega)]

lemma Ensures.push {data : Bytes} (positive : 0 < data.length) (small : data.length < 0x4c)
    (next : Ensures H flags checker rest (if vfExec.head?.getD true then data :: stack else stack) vfExec post) :
    Ensures H flags checker (ofNat data.length :: data ++ rest) stack vfExec post := by
  intro count steps final enough done
  cases steps with
  | zero => simp at enough
  | succ steps =>
    have left : (if (⟨stack, vfExec, count⟩ : ScriptState).fExec then pushed ⟨stack, vfExec, count⟩ data
        else ⟨stack, vfExec, count⟩) = ⟨if vfExec.head?.getD true then data :: stack else stack, vfExec, count⟩ := by
      rw [fExec]
      cases vfExec.head?.getD true <;> rfl
    simp only [cons_append, evalSteps, scriptStep_push positive small, left, bind, Except.bind] at done
    exact next count steps final (by simp at enough; omega) done

def Opcode.isPush : Opcode → Bool
  | .push _ | .pushData _ => true
  | _ => false

def Opcode.branches : Opcode → Bool
  | .opIf | .opNotIf | .opElse | .opEndIf => true
  | _ => false

variable {byte : UInt8}

/-- One turn on a byte that is not a push: the opcode is counted and executed. -/
lemma scriptStep_plain {state next : ScriptState} {behind : Bytes} (plain : (Opcode.ofByte byte).isPush = false)
    (done : scriptStep H flags checker state byte rest = .ok (next, behind)) :
    behind = rest ∧ ∃ count, execOpcode H flags checker byte { state with nOpCount := count } = .ok next := by
  unfold scriptStep at done
  split at done
  · rename_i size isPush
    simp [isPush, Opcode.isPush] at plain
  · rename_i width isPush
    simp [isPush, Opcode.isPush] at plain
  · obtain ⟨after, counted, done⟩ := bind_eq_ok_iff.mp done
    obtain ⟨left, executed, done⟩ := bind_eq_ok_iff.mp done
    obtain ⟨kept, checked, done⟩ := bind_eq_ok_iff.mp done
    cases done
    have same : left = next := by
      unfold checkStackSize at checked
      split at checked <;> cases checked
      rfl
    have onlyCount : after = { state with nOpCount := after.nOpCount } := by
      unfold countOpcode at counted
      repeat' split at counted
      all_goals cases counted
      all_goals rfl
    subst same
    exact ⟨rfl, after.nOpCount, onlyCount ▸ executed⟩

lemma Ensures.op (plain : (ofByte byte).isPush = false)
    (next : ∀ count after, execOpcode H flags checker byte ⟨stack, vfExec, count⟩ = .ok after →
      Ensures H flags checker rest after.stack after.vfExec post) :
    Ensures H flags checker (byte :: rest) stack vfExec post := by
  intro count steps final enough done
  cases steps with
  | zero => simp at enough
  | succ steps =>
    obtain ⟨⟨after, behind⟩, step, ran⟩ := bind_eq_ok_iff.mp done
    obtain ⟨rfl, count, executed⟩ := scriptStep_plain plain step
    exact next count after executed after.nOpCount steps final (by simpa using enough) ran

lemma execOpcode_plain (straight : (ofByte byte).branches = false) (state : ScriptState) :
    execOpcode H flags checker byte state =
      if state.fExec then execTaken H flags checker byte state (ofByte byte) else .ok state := by
  unfold execOpcode
  cases opcode : ofByte byte <;> simp_all [branches]

section

variable (plain : (ofByte byte).isPush = false) (straight : (ofByte byte).branches = false)

include plain straight

lemma Ensures.skip
    (untaken : vfExec.head?.getD true = false) (next : Ensures H flags checker rest stack vfExec post) :
    Ensures H flags checker (byte :: rest) stack vfExec post := by
  refine Ensures.op plain fun count after done => ?_
  rw [execOpcode_plain straight, fExec, untaken] at done
  cases done
  exact next

lemma Ensures.taken (taken : vfExec.head?.getD true = true)
    (next : ∀ count after, execTaken H flags checker byte ⟨stack, vfExec, count⟩ (ofByte byte) = .ok after →
      Ensures H flags checker rest after.stack after.vfExec post) :
    Ensures H flags checker (byte :: rest) stack vfExec post := by
  refine Ensures.op plain fun count after done => next count after ?_
  rwa [execOpcode_plain straight, fExec, taken] at done

end

section

variable (taken : vfExec.head?.getD true = true)

include taken

lemma Ensures.dup (next : ∀ top below, stack = top :: below →
    Ensures H flags checker rest (top :: top :: below) vfExec post) :
    Ensures H flags checker (0x76 :: rest) stack vfExec post := by
  refine Ensures.taken rfl rfl taken fun count after done => ?_
  cases stack with
  | nil => cases done
  | cons top below =>
    cases done
    exact next top below rfl

lemma Ensures.drop (next : ∀ top below, stack = top :: below → Ensures H flags checker rest below vfExec post) :
    Ensures H flags checker (0x75 :: rest) stack vfExec post := by
  refine Ensures.taken rfl rfl taken fun count after done => ?_
  cases stack with
  | nil => cases done
  | cons top below =>
    cases done
    exact next top below rfl

lemma Ensures.sha3_256
    (next : ∀ top below, stack = top :: below →
      Ensures H flags checker rest ((H.sha3_256 top).data :: below) vfExec post) :
    Ensures H flags checker (0xa8 :: rest) stack vfExec post := by
  refine Ensures.taken rfl rfl taken fun count after done => ?_
  cases stack with
  | nil => cases done
  | cons top below =>
    cases done
    exact next top below rfl

lemma Ensures.hash160
    (next : ∀ top below, stack = top :: below →
      Ensures H flags checker rest (Dilithion.hash160 H top :: below) vfExec post) :
    Ensures H flags checker (0xa9 :: rest) stack vfExec post := by
  refine Ensures.taken rfl rfl taken fun count after done => ?_
  cases stack with
  | nil => cases done
  | cons top below =>
    cases done
    exact next top below rfl

variable {below : List Bytes}

lemma Ensures.equalVerify {top second : Bytes}
    (next : top = second → Ensures H flags checker rest below vfExec post) :
    Ensures H flags checker (0x88 :: rest) (top :: second :: below) vfExec post := by
  refine Ensures.taken rfl rfl taken fun count after done => ?_
  by_cases same : top = second
  · replace done := (if_pos same).symm.trans done
    cases done
    exact next same
  · cases (if_neg same).symm.trans done

lemma Ensures.checkSig (next : ∀ pubkey sig below, stack = pubkey :: sig :: below →
      Ensures H flags checker rest (ofBool (checker.checkSig sig pubkey) :: below) vfExec post) :
    Ensures H flags checker (0xac :: rest) stack vfExec post := by
  refine Ensures.taken rfl rfl taken fun count after done => ?_
  match stack, done with
  | [], done => cases done
  | [_], done => cases done
  | pubkey :: sig :: below, done =>
    cases done
    exact next pubkey sig below rfl

lemma Ensures.checkLockTimeVerify {top : Bytes} (flagged : flags.checkLockTimeVerify = true)
    (next : ∀ number, CScriptNum.ofVch top 5 = .ok number → checker.checkLockTime number = true →
      Ensures H flags checker rest (top :: below) vfExec post) :
    Ensures H flags checker (0xb1 :: rest) (top :: below) vfExec post := by
  refine Ensures.taken rfl rfl taken fun count after done => ?_
  replace done := (if_pos flagged).symm.trans done
  unfold checkTopNumber at done
  cases read : CScriptNum.ofVch top 5 with
  | error text => simp [read] at done
  | ok number =>
    simp only [read] at done
    split at done
    · cases done
    · split at done
      · cases done
      · rename_i holds
        cases done
        exact next number read (by simpa using holds)

/-- The key hash check that scripts paying to a key hash end with. -/
lemma Ensures.payToKeyHash {keyHash : Bytes} (sized : keyHash.length = 20)
    (next : ∀ pubkey sig below, stack = pubkey :: sig :: below → Dilithion.hash160 H pubkey = keyHash →
      Ensures H flags checker rest (ofBool (checker.checkSig sig pubkey) :: below) vfExec post) :
    Ensures H flags checker (0x76 :: 0xa9 :: 0x14 :: keyHash ++ 0x88 :: 0xac :: rest) stack vfExec post := by
  refine Ensures.dup taken fun pubkey below isStack => Ensures.hash160 taken fun top others isPair => ?_
  obtain ⟨rfl, rfl⟩ := cons.inj isPair
  have width : (0x14 : UInt8) = ofNat keyHash.length := by rw [sized]; rfl
  rw [width]
  refine Ensures.push (by omega) (by omega) ?_
  rw [if_pos taken]
  refine Ensures.equalVerify taken fun hashes => Ensures.checkSig taken fun key sig deeper isPair => ?_
  obtain ⟨rfl, rfl⟩ := cons.inj isPair
  exact next _ sig deeper isStack hashes.symm

end

lemma Ensures.skipPayToKeyHash {keyHash : Bytes} (sized : keyHash.length = 20)
    (untaken : vfExec.head?.getD true = false)
    (next : Ensures H flags checker rest stack vfExec post) :
    Ensures H flags checker (0x76 :: 0xa9 :: 0x14 :: keyHash ++ 0x88 :: 0xac :: rest) stack vfExec post := by
  refine Ensures.skip rfl rfl untaken (Ensures.skip rfl rfl untaken ?_)
  have width : (0x14 : UInt8) = ofNat keyHash.length := by rw [sized]; rfl
  rw [width]
  refine Ensures.push (by omega) (by omega) ?_
  rw [untaken]
  exact Ensures.skip rfl rfl untaken (Ensures.skip rfl rfl untaken next)

lemma Ensures.opIf (taken : vfExec.head?.getD true = true)
    (next : ∀ top below, stack = top :: below → Ensures H flags checker rest below (castToBool top :: vfExec) post) :
    Ensures H flags checker (0x63 :: rest) stack vfExec post := by
  refine Ensures.op rfl fun count after done => ?_
  replace done : openBranch false ⟨stack, vfExec, count⟩ = .ok after := done
  rw [openBranch, fExec, if_pos taken] at done
  cases stack with
  | nil => cases done
  | cons top below =>
    cases done
    simpa using next top below rfl

variable {innermost : Bool}

lemma Ensures.opElse (next : Ensures H flags checker rest stack [!innermost] post) :
    Ensures H flags checker (0x67 :: rest) stack [innermost] post := by
  refine Ensures.op rfl fun count after done => ?_
  cases done
  exact next

lemma Ensures.opEndIf {outer : List Bool} (next : Ensures H flags checker rest stack outer post) :
    Ensures H flags checker (0x68 :: rest) stack (innermost :: outer) post := by
  refine Ensures.op rfl fun count after done => ?_
  cases done
  exact next

section

variable (H flags checker)

def Runs (script : Bytes) (state final : ScriptState) : Prop :=
  ∀ steps, script.length ≤ steps → evalSteps H flags checker steps state script = .ok final

variable {H flags checker}

lemma Runs.nil (state : ScriptState) : Runs H flags checker [] state state := by
  intro steps _
  cases steps <;> rfl

lemma Runs.step {behind : Bytes} {state next final : ScriptState}
    (stepped : scriptStep H flags checker state byte rest = .ok (next, behind))
    (runs : Runs H flags checker behind next final) :
    Runs H flags checker (byte :: rest) state final := by
  intro steps enough
  have shorter := scriptStep_rest stepped
  cases steps with
  | zero => simp at enough
  | succ steps =>
    simp only [length_cons, Nat.add_le_add_iff_right] at enough
    simp only [evalSteps, stepped, bind, Except.bind]
    exact runs steps (le_trans shorter enough)

variable {count : Nat}

lemma Runs.evalScript {script : Bytes} {left : List Bytes}
    (runs : Runs H flags checker script ⟨stack, [], 0⟩ ⟨left, [], count⟩) (small : script.length ≤ maxScriptSize) :
    Dilithion.evalScript H flags checker stack script = .ok left := by
  have run := runs script.length (le_refl _)
  unfold Dilithion.evalScript
  rw [if_neg (by omega)]
  simp [run, bind, Except.bind, pure, Except.pure]

lemma Runs.pushTwo {data : Bytes} {final : ScriptState}
    (small : data.length ≤ maxScriptElementSize) (runs : Runs H flags checker rest ⟨data :: stack, [], count⟩ final) :
    Runs H flags checker (0x4d :: encode 2 data.length ++ (data ++ rest)) ⟨stack, [], count⟩ final := by
  have bound : data.length < 256 ^ 2 := lt_of_le_of_lt small (by decide)
  have front : (encode 2 data.length ++ (data ++ rest)).take 2 = encode 2 data.length :=
    take_left' (encode_length _ _)
  have stepped : scriptStep H flags checker ⟨stack, [], count⟩ 0x4d (encode 2 data.length ++ (data ++ rest)) =
      .ok (⟨data :: stack, [], count⟩, rest) := by
    have isPush : Opcode.ofByte 0x4d = .pushData 2 := rfl
    have enough : ¬ (encode 2 data.length ++ (data ++ rest)).length < 2 := by
      rw [length_append, encode_length]
      omega
    simp only [scriptStep, isPush]
    rw [if_neg enough, front, value_encode bound, pushBytes, if_neg (by simp), if_neg (by omega)]
    simp [fExec, pushed]
  exact Runs.step stepped runs

lemma scriptStep_equalVerify {top second : Bytes} {below : List Bytes} (same : top = second)
    (taken : vfExec.head?.getD true = true) (few : count < maxOpsPerScript) (fits : below.length ≤ maxStackSize) :
    scriptStep H flags checker ⟨top :: second :: below, vfExec, count⟩ 0x88 rest =
      .ok (⟨below, vfExec, count + 1⟩, rest) := by
  subst same
  have isOp : ofByte 0x88 = .equalVerify := rfl
  have counted : countOpcode 0x88 ⟨top :: top :: below, vfExec, count⟩ = .ok ⟨top :: top :: below, vfExec, count + 1⟩ :=
    (if_pos (by decide)).trans (if_neg (not_lt.mpr few))
  simp only [scriptStep, isOp, counted, execOpcode, fExec, taken, execTaken, checkStackSize, bind, Except.bind, if_true,
    if_neg (not_lt.mpr fits), pure, Except.pure]

end

/-- An accepted input leaves a stack on which the locking script leaves a true value on top. -/
lemma verifyScript_accepted {scriptSig scriptPubKey : Bytes}
    (accepted : verifyScript H flags checker scriptSig scriptPubKey = .ok ()) :
    ∃ pushed top below, evalScript H flags checker [] scriptSig = .ok pushed ∧
      evalScript H flags checker pushed scriptPubKey = .ok (top :: below) ∧ castToBool top = true := by
  unfold verifyScript at accepted
  obtain ⟨pushed, unlocked, accepted⟩ := bind_eq_ok_iff.mp accepted
  obtain ⟨final, locked, accepted⟩ := bind_eq_ok_iff.mp accepted
  cases final with
  | nil => cases accepted
  | cons top below =>
    refine ⟨pushed, top, below, unlocked, locked, ?_⟩
    by_contra isFalse
    simp [isFalse, throw, throwThe, MonadExceptOf.throw] at accepted

lemma Ensures.evalScript {script : Bytes} {final : List Bytes} (ensured : Ensures H flags checker script stack [] post)
    (done : Dilithion.evalScript H flags checker stack script = .ok final) : post final [] := by
  unfold Dilithion.evalScript at done
  split at done
  · cases done
  · obtain ⟨⟨left, open_, count⟩, run, done⟩ := bind_eq_ok_iff.mp done
    have held := ensured 0 script.length _ (le_refl _) run
    cases open_ with
    | nil =>
      cases done
      exact held
    | cons innermost outer => cases done

/-! Conditionals of a script. `vfExec` holds for every enclosing branch whether it and all branches around it are
taken, so that its innermost entry decides alone; what lies in a branch not taken is skipped, and only scripts whose
conditionals are balanced are accepted. -/

/-- The conditions of the enclosing branches, innermost first, after an opcode. The condition of a branch that is
opened where nothing is executed is not read from the stack: it is `unread`. -/
def branchConditions (unread : Bool) (stack : List Bytes) : Opcode → List Bool → List Bool
  | .opIf, conditions => (if conditions.all id then stack.head?.any castToBool else unread) :: conditions
  | .opNotIf, conditions => (if conditions.all id then !stack.head?.any castToBool else unread) :: conditions
  | .opElse, condition :: outer => (!condition) :: outer
  | .opEndIf, _ :: outer => outer
  | _, conditions => conditions

/-- The states in which a run comes to an opcode, with the opcodes before, the conditions of the enclosing branches and
the bytes left. -/
inductive Reached (H : HashFunctions) (flags : ScriptVerifyFlags) (checker : SignatureChecker) (script : Bytes)
    (stack : List Bytes) : List UInt8 → List Bool → ScriptState → Bytes → Prop
  | start : Reached H flags checker script stack [] [] ⟨stack, [], 0⟩ script
  | step {opcodes : List UInt8} {conditions : List Bool} {state next : ScriptState} {byte : UInt8}
      {rest behind : Bytes} (unread : Bool)
      (reached : Reached H flags checker script stack opcodes conditions state (byte :: rest))
      (stepped : scriptStep H flags checker state byte rest = .ok (next, behind)) :
      Reached H flags checker script stack (byte :: opcodes)
        (branchConditions unread state.stack (ofByte byte) conditions) next behind

def operandSize (byte : UInt8) (rest : Bytes) : Nat :=
  match ofByte byte with
  | .push nSize => nSize
  | .pushData width => width + LittleEndian.value (rest.take width)
  | _ => 0

/-- The conditionals of the script are balanced when it stands inside of `depth` open ones. -/
inductive WellNested : Nat → Bytes → Prop
  | done : WellNested 0 []
  | opens {byte : UInt8} {depth : Nat} {rest : Bytes} (isOp : ofByte byte = .opIf ∨ ofByte byte = .opNotIf)
      (balanced : WellNested (depth + 1) rest) : WellNested depth (byte :: rest)
  | turns {byte : UInt8} {depth : Nat} {rest : Bytes} (isOp : ofByte byte = .opElse)
      (balanced : WellNested (depth + 1) rest) : WellNested (depth + 1) (byte :: rest)
  | closes {byte : UInt8} {depth : Nat} {rest : Bytes} (isOp : ofByte byte = .opEndIf)
      (balanced : WellNested depth rest) : WellNested (depth + 1) (byte :: rest)
  | stays {byte : UInt8} {depth : Nat} {rest : Bytes} (straight : (ofByte byte).branches = false)
      (balanced : WellNested depth (rest.drop (operandSize byte rest))) : WellNested depth (byte :: rest)

lemma operandSize_plain {byte : UInt8} {rest : Bytes} (plain : (ofByte byte).isPush = false) :
    operandSize byte rest = 0 := by
  unfold operandSize
  split <;> simp_all [Opcode.isPush]

variable {H : HashFunctions} {flags : ScriptVerifyFlags} {checker : SignatureChecker}
  {state next : ScriptState} {byte : UInt8}
  {rest behind : Bytes}

lemma execTaken_vfExec {opcode : Opcode} (done : execTaken H flags checker byte state opcode = .ok next) :
    next.vfExec = state.vfExec := by
  unfold execTaken checkTopNumber at done
  repeat' split at done
  all_goals cases done <;> rfl

lemma pushBytes_ok {nSize : Nat} (done : pushBytes state nSize rest = .ok (next, behind)) :
    behind = rest.drop nSize ∧ nSize ≤ rest.length ∧ nSize ≤ maxScriptElementSize ∧
      next = if state.fExec then state.pushed (rest.take nSize) else state := by
  unfold pushBytes at done
  split at done
  · cases done
  · split at done <;> cases done
    exact ⟨rfl, by omega, by omega, rfl⟩

lemma scriptStep_push_ok (isPush : (ofByte byte).isPush = true)
    (stepped : scriptStep H flags checker state byte rest = .ok (next, behind)) :
    behind = rest.drop (operandSize byte rest) ∧ operandSize byte rest ≤ rest.length ∧
      ∃ data : Bytes, data.length ≤ maxScriptElementSize ∧ next = if state.fExec then state.pushed data else state := by
  unfold scriptStep at stepped
  split at stepped
  next nSize isOp =>
    obtain ⟨rfl, inside, small, rfl⟩ := pushBytes_ok stepped
    rw [show operandSize byte rest = nSize by rw [operandSize, isOp]]
    exact ⟨rfl, inside, _, Nat.le_trans (length_take_le _ _) small, rfl⟩
  next width isOp =>
    split at stepped
    · cases stepped
    · obtain ⟨rfl, inside, small, rfl⟩ := pushBytes_ok stepped
      rw [length_drop] at inside
      rw [show operandSize byte rest = width + LittleEndian.value (rest.take width) by rw [operandSize, isOp],
        drop_drop]
      exact ⟨rfl, by omega, _, Nat.le_trans (length_take_le _ _) small, rfl⟩
  next => cases isOp : ofByte byte <;> simp_all [Opcode.isPush]

/-- What an opcode does to the branches, and that it does nothing to the stack where nothing is executed. -/
lemma scriptStep_branches (stepped : scriptStep H flags checker state byte rest = .ok (next, behind)) :
    behind = rest.drop (operandSize byte rest) ∧ (state.fExec = false → next.stack = state.stack) ∧
      match ofByte byte with
      | .opIf => next.vfExec = (state.fExec && state.stack.head?.any castToBool) :: state.vfExec
      | .opNotIf => next.vfExec = (state.fExec && !state.stack.head?.any castToBool) :: state.vfExec
      | .opElse => ∃ innermost outer, state.vfExec = innermost :: outer ∧
          next.vfExec = (if outer.head?.getD true then !innermost else innermost) :: outer
      | .opEndIf => ∃ innermost, state.vfExec = innermost :: next.vfExec
      | _ => next.vfExec = state.vfExec := by
  cases plain : (ofByte byte).isPush with
  | true =>
    obtain ⟨isBehind, -, data, -, rfl⟩ := scriptStep_push_ok plain stepped
    refine ⟨isBehind, fun untaken => by simp [untaken], ?_⟩
    cases isOp : ofByte byte <;> simp_all [Opcode.isPush, pushed] <;> split <;> rfl
  | false =>
    obtain ⟨rfl, count, executed⟩ := scriptStep_plain plain stepped
    refine ⟨by rw [operandSize_plain plain]; rfl, ?_⟩
    have opened {negated : Bool} (isOpening : openBranch negated { state with nOpCount := count } = .ok next) :
        (state.fExec = false → next.stack = state.stack) ∧
          next.vfExec = (state.fExec && (state.stack.head?.any castToBool != negated)) :: state.vfExec := by
      unfold openBranch at isOpening
      split at isOpening
      next executing =>
        split at isOpening <;> cases isOpening
        next top below isStack => simp_all [fExec]
      next skipped =>
        cases isOpening
        simp_all [fExec]
    unfold execOpcode at executed
    -- with the opcode a variable, the split below reaches the goal as well
    generalize ofByte byte = opcode at executed ⊢
    split at executed
    next => simpa using opened executed
    next => simpa using opened executed
    next =>
      split at executed <;> cases executed
      next innermost isOpen => exact ⟨fun _ => rfl, innermost, [], isOpen, rfl⟩
      next innermost parent outer isOpen => exact ⟨fun _ => rfl, innermost, parent :: outer, isOpen, rfl⟩
    next =>
      split at executed <;> cases executed
      next innermost outer isOpen => exact ⟨fun _ => rfl, innermost, isOpen⟩
    next opcode notIf notNotIf notElse notEndIf =>
      split at executed
      next executing =>
        have kept := execTaken_vfExec executed
        refine ⟨fun untaken => absurd (untaken.symm.trans executing) (by simp), ?_⟩
        cases opcode <;> simp_all
      next =>
        cases executed
        refine ⟨fun _ => rfl, ?_⟩
        cases opcode <;> simp_all

/-- Where nothing is executed, an opcode does not depend on the checker. -/
lemma scriptStep_skipped (untaken : state.fExec = false) (other : SignatureChecker) :
    scriptStep H flags other state byte rest = scriptStep H flags checker state byte rest := by
  have counted : ∀ after, countOpcode byte state = .ok after → after.fExec = false := by
    intro after counts
    unfold countOpcode at counts
    repeat' split at counts
    all_goals cases counts <;> exact untaken
  unfold scriptStep
  split
  · rfl
  · rfl
  · cases counts : countOpcode byte state with
    | error text => rfl
    | ok after =>
      have same : execOpcode H flags other byte after = execOpcode H flags checker byte after := by
        simp [execOpcode, counted after counts]
      simp only [bind, Except.bind, same]

/-- Whether each enclosing branch and all branches around it are taken. -/
def effective : List Bool → List Bool
  | [] => []
  | condition :: outer => (condition && outer.all id) :: effective outer

variable {conditions : List Bool}

lemma fExec_effective (tracks : state.vfExec = effective conditions) : state.fExec = conditions.all id := by
  rw [fExec, tracks]
  cases conditions <;> rfl

lemma effective_step (unread : Bool) (tracks : state.vfExec = effective conditions)
    (stepped : scriptStep H flags checker state byte rest = .ok (next, behind)) :
    next.vfExec = effective (branchConditions unread state.stack (ofByte byte) conditions) := by
  obtain ⟨-, -, branches⟩ := scriptStep_branches stepped
  rw [fExec_effective tracks, tracks] at branches
  split at branches
  next => cases all : conditions.all id <;> simp_all [branchConditions, effective]
  next => cases all : conditions.all id <;> simp_all [branchConditions, effective]
  next isOp =>
    obtain ⟨innermost, outer, isOpen, turned⟩ := branches
    cases conditions with
    | nil => cases isOpen
    | cons condition around =>
      cases isOpen
      have parent : (effective around).head?.getD true = around.all id := by cases around <;> rfl
      rw [turned, parent, isOp, branchConditions, effective]
      cases around.all id <;> cases condition <;> rfl
  next isOp =>
    obtain ⟨innermost, isOpen⟩ := branches
    cases conditions with
    | nil => cases isOpen
    | cons condition around => exact isOp ▸ (cons.inj isOpen).2.symm
  next notIf notNotIf notElse notEndIf =>
    rw [branches]
    unfold branchConditions
    split <;> simp_all

lemma vfExec_reached {script : Bytes} {stack : List Bytes} {opcodes : List UInt8}
    (reached : Reached H flags checker script stack opcodes conditions state rest) :
    state.vfExec = effective conditions := by
  induction reached with
  | start => rfl
  | step unread _ stepped tracks => exact effective_step unread tracks stepped

lemma balanced_step (stepped : scriptStep H flags checker state byte rest = .ok (next, behind))
    (balanced : WellNested next.vfExec.length behind) : WellNested state.vfExec.length (byte :: rest) := by
  obtain ⟨rfl, -, branches⟩ := scriptStep_branches stepped
  have none_ (plain : (ofByte byte).isPush = false) : rest.drop (operandSize byte rest) = rest := by
    rw [operandSize_plain plain]
    rfl
  split at branches
  next isOp => exact .opens (.inl isOp) (by rw [none_ (by rw [isOp]; rfl), branches] at balanced; exact balanced)
  next isOp => exact .opens (.inr isOp) (by rw [none_ (by rw [isOp]; rfl), branches] at balanced; exact balanced)
  next isOp =>
    obtain ⟨innermost, outer, isOpen, turned⟩ := branches
    rw [none_ (by rw [isOp]; rfl), turned] at balanced
    rw [isOpen]
    exact .turns isOp balanced
  next isOp =>
    obtain ⟨innermost, isOpen⟩ := branches
    rw [none_ (by rw [isOp]; rfl)] at balanced
    rw [isOpen]
    exact .closes isOp balanced
  next notIf notNotIf notElse notEndIf =>
    refine .stays ?_ (branches ▸ balanced)
    cases isOp : ofByte byte <;> simp_all [Opcode.branches]

lemma balanced_of_evalSteps {steps : Nat} {script : Bytes} {final : ScriptState} (enough : script.length ≤ steps)
    (done : evalSteps H flags checker steps state script = .ok final) (closed : final.vfExec = []) :
    WellNested state.vfExec.length script := by
  induction steps generalizing state script with
  | zero =>
    cases eq_nil_of_length_eq_zero (Nat.le_zero.mp enough)
    cases done
    rw [closed]
    exact .done
  | succ steps ih =>
    cases script with
    | nil =>
      cases done
      rw [closed]
      exact .done
    | cons byte rest =>
      obtain ⟨⟨next, behind⟩, stepped, ran⟩ := Decoder.bind_eq_ok_iff.mp done
      exact balanced_step stepped (ih (Nat.le_trans (scriptStep_rest stepped) (Nat.le_of_succ_le_succ enough)) ran)

/-- At every opcode the flag is the conjunction of the conditions of the enclosing branches; where it is false the
opcode leaves the stack as it is and the checker is not asked; and a script is accepted only if its conditionals are
balanced. -/
theorem conditional_execution (H : HashFunctions) (flags : ScriptVerifyFlags)
    (checker : SignatureChecker) (script : Bytes)
    (stack : List Bytes) :
    (∀ opcodes conditions state rest, Reached H flags checker script stack opcodes conditions state rest →
      state.fExec = conditions.all id ∧ (conditions.all id = false → ∀ byte behind, rest = byte :: behind →
          (∀ other, scriptStep H flags other state byte behind = scriptStep H flags checker state byte behind) ∧
            ∀ next left, scriptStep H flags checker state byte behind = .ok (next, left) → next.stack = state.stack)) ∧
      ∀ final, evalScript H flags checker stack script = .ok final → WellNested 0 script := by
  constructor
  · intro opcodes conditions state rest reached
    have taken := fExec_effective (vfExec_reached reached)
    refine ⟨taken, fun untaken byte behind _ => ?_⟩
    rw [← taken] at untaken
    exact ⟨scriptStep_skipped untaken, fun next left stepped => (scriptStep_branches stepped).2.1 untaken⟩
  · intro final done
    unfold evalScript at done
    split at done
    · cases done
    · obtain ⟨⟨left, open_, count⟩, run, done⟩ := Decoder.bind_eq_ok_iff.mp done
      cases open_ with
      | nil => exact balanced_of_evalSteps (Nat.le_refl _) run rfl
      | cons innermost outer => cases done

open CScriptNum

/-- How many elements an executed opcode takes from the stack or looks at. -/
def operands (flags : ScriptVerifyFlags) : Opcode → Nat
  | .opIf | .opNotIf | .verify | .dup | .drop | .size | .sha3_256 | .hash160 => 1
  | .checkLockTimeVerify => if flags.checkLockTimeVerify then 1 else 0
  | .checkSequenceVerify => if flags.checkSequenceVerify then 1 else 0
  | .swap | .equal | .equalVerify | .checkSig => 2
  | _ => 0

/-- How many elements an executed opcode leaves on a stack of `depth`. -/
def depthAfter (depth : Nat) : Opcode → Nat
  | .push _ | .pushData _ | .op0 | .op1Negate | .opN _ | .dup | .size => depth + 1
  | .opIf | .opNotIf | .verify | .drop | .equal | .checkSig => depth - 1
  | .equalVerify => depth - 2
  | _ => depth

/-- The opcodes of a script in the order of the text, without their operands. -/
def opcodesOf : Nat → Bytes → List Opcode
  | steps + 1, byte :: rest => ofByte byte :: opcodesOf steps (rest.drop (operandSize byte rest))
  | _, _ => []

/-- As `branchConditions`, with the condition of a new branch given. -/
def turned (taken : Bool) : Opcode → List Bool → List Bool
  | .opIf, conditions | .opNotIf, conditions => taken :: conditions
  | .opElse, condition :: outer => (!condition) :: outer
  | .opEndIf, _ :: outer => outer
  | _, conditions => conditions

/-- Whichever branches are taken, a stack of `depth` elements keeps its limit at every opcode. -/
def Shallow : List Bool → Nat → List Opcode → Prop
  | _, depth, [] => depth ≤ maxStackSize
  | conditions, depth, opcode :: rest => depth ≤ maxStackSize ∧ ∀ taken,
      Shallow (turned taken opcode conditions) (if conditions.all id then depthAfter depth opcode else depth) rest

instance decidableShallow : (conditions : List Bool) → (depth : Nat) → (opcodes : List Opcode) →
    Decidable (Shallow conditions depth opcodes)
  | _, _, [] => inferInstanceAs (Decidable (_ ≤ _))
  | conditions, depth, opcode :: rest =>
    have := fun taken => decidableShallow (turned taken opcode conditions)
      (if conditions.all id then depthAfter depth opcode else depth) rest
    inferInstanceAs (Decidable (_ ∧ ∀ _ : Bool, _))

def SmallElements (stack : List Bytes) : Prop := ∀ element ∈ stack, element.length ≤ maxScriptElementSize

lemma length_magnitude (rounds : Nat) (absvalue : UInt64) : (magnitude rounds absvalue).length ≤ rounds := by
  induction rounds generalizing absvalue with
  | zero => simp [magnitude]
  | succ rounds ih =>
    unfold magnitude
    split <;> simp [ih]

lemma length_serialize (value : Int64) : (serialize value).length ≤ maxScriptElementSize := by
  have bound (absvalue : UInt64) := length_magnitude 8 absvalue
  unfold serialize maxScriptElementSize
  dsimp only
  repeat' split
  all_goals grind

lemma length_ofBool (value : Bool) : (ofBool value).length ≤ maxScriptElementSize := by
  cases value <;> simp [ofBool, maxScriptElementSize]

lemma execTaken_ok {opcode : Opcode} (straight : opcode.branches = false) (plain : opcode.isPush = false)
    (done : execTaken H flags checker byte state opcode = .ok next) :
    next.nOpCount = state.nOpCount ∧ operands flags opcode ≤ state.stack.length ∧
      next.stack.length = depthAfter state.stack.length opcode ∧
      (SmallElements state.stack → SmallElements next.stack) := by
  have hashes (data : Bytes) : (H.sha3_256 data).data.length ≤ maxScriptElementSize := by simp [maxScriptElementSize]
  have short (data : Bytes) : (hash160 H data).length ≤ maxScriptElementSize := by simp [hash160, maxScriptElementSize]
  unfold execTaken checkTopNumber at done
  repeat' split at done
  all_goals cases done
  all_goals simp_all [operands, depthAfter, SmallElements, pushed, length_serialize, length_ofBool]
  cases opcode <;> simp_all [branches, isPush]

lemma execOpcode_ok (plain : (ofByte byte).isPush = false) (done : execOpcode H flags checker byte state = .ok next) :
    next.nOpCount = state.nOpCount ∧ (state.fExec = true → operands flags (ofByte byte) ≤ state.stack.length) ∧
      next.stack.length = (if state.fExec then depthAfter state.stack.length (ofByte byte) else state.stack.length) ∧
      (SmallElements state.stack → SmallElements next.stack) := by
  cases straight : (ofByte byte).branches with
  | false =>
    rw [execOpcode_plain straight] at done
    split at done
    next taken =>
      obtain ⟨count, enough, depth, small⟩ := execTaken_ok straight plain done
      exact ⟨count, fun _ => enough, by rw [if_pos taken, depth], small⟩
    next skipped =>
      cases done
      exact ⟨rfl, fun taken => absurd taken skipped, by rw [if_neg skipped], id⟩
  | true =>
    unfold execOpcode openBranch at done
    cases isOp : ofByte byte <;> simp_all only [branches, reduceCtorEq] <;> repeat' split at done
    all_goals cases done
    all_goals simp_all [operands, depthAfter, SmallElements]

/-- What an opcode that is no data push does to the count, the elements and the size of the stack. -/
lemma scriptStep_plain_ok (plain : (ofByte byte).isPush = false)
    (stepped : scriptStep H flags checker state byte rest = .ok (next, behind)) :
    (next.nOpCount = state.nOpCount + if 0x60 < byte then 1 else 0) ∧ (0x60 < byte → next.nOpCount ≤ maxOpsPerScript) ∧
      (state.fExec = true → operands flags (ofByte byte) ≤ state.stack.length) ∧
      next.stack.length = (if state.fExec then depthAfter state.stack.length (ofByte byte) else state.stack.length) ∧
      (SmallElements state.stack → SmallElements next.stack) := by
  unfold scriptStep at stepped
  split at stepped
  next isOp => simp [isOp, isPush] at plain
  next isOp => simp [isOp, isPush] at plain
  obtain ⟨after, counted, stepped⟩ := Decoder.bind_eq_ok_iff.mp stepped
  obtain ⟨left, executed, stepped⟩ := Decoder.bind_eq_ok_iff.mp stepped
  obtain ⟨kept, checked, stepped⟩ := Decoder.bind_eq_ok_iff.mp stepped
  cases stepped
  obtain ⟨count, enough, depth, small⟩ := execOpcode_ok plain executed
  unfold countOpcode at counted
  unfold checkStackSize at checked
  split at checked <;> cases checked
  split at counted
  next counts =>
    split at counted <;> cases counted
    simp only [counts, if_true, count, true_imp_iff]
    exact ⟨trivial, by omega, enough, depth, small⟩
  next =>
    cases counted
    simp_all

lemma isPush_le (isPush : (ofByte byte).isPush = true) : ¬ 0x60 < byte := by
  intro large
  unfold ofByte at isPush
  grind [Opcode.isPush]

section

variable {script : Bytes} {stack : List Bytes} {opcodes : List UInt8} {conditions : List Bool}

lemma suffix_step (stepped : scriptStep H flags checker state byte rest = .ok (next, behind)) : behind <:+ rest := by
  rw [(scriptStep_branches stepped).1]
  exact drop_suffix _ _

lemma reached_limits (small : SmallElements stack)
    (reached : Reached H flags checker script stack opcodes conditions state rest) :
    rest <:+ script ∧ state.nOpCount = opcodes.countP (0x60 < ·) ∧ state.nOpCount ≤ maxOpsPerScript ∧
    SmallElements state.stack := by
  induction reached with
  | start => exact ⟨suffix_refl _, rfl, Nat.zero_le _, small⟩
  | @step _ _ state next byte rest behind _ _ stepped ih =>
    obtain ⟨inside, counted, few, elements⟩ := ih
    refine ⟨(suffix_step stepped).trans ((suffix_cons _ _).trans inside), ?_⟩
    cases plain : (ofByte byte).isPush with
    | true =>
      obtain ⟨-, -, data, fits, rfl⟩ := scriptStep_push_ok plain stepped
      rw [countP_cons_of_neg (by simpa using isPush_le plain)]
      split <;> simp_all [pushed, SmallElements]
    | false =>
      obtain ⟨count, bound, -, -, kept⟩ := scriptStep_plain_ok plain stepped
      refine ⟨?_, ?_, kept elements⟩
      · rw [count, counted, countP_cons]
        simp
      · by_cases counts : 0x60 < byte
        · exact bound counts
        · simpa [count, counts] using few

lemma depth_step (stepped : scriptStep H flags checker state byte rest = .ok (next, behind)) :
    next.stack.length = if state.fExec then depthAfter state.stack.length (ofByte byte) else state.stack.length := by
  cases plain : (ofByte byte).isPush with
  | true =>
    obtain ⟨-, -, data, -, rfl⟩ := scriptStep_push_ok plain stepped
    cases isOp : ofByte byte <;> simp_all [isPush, depthAfter, pushed] <;> split <;> rfl
  | false => exact (scriptStep_plain_ok plain stepped).2.2.2.1

lemma Shallow.depth {depth : Nat} {opcodes : List Opcode} (shallow : Shallow conditions depth opcodes) :
    depth ≤ maxStackSize := by
  cases opcodes with
  | nil => exact shallow
  | cons opcode rest => exact shallow.1

lemma branchConditions_turned (unread : Bool) (stack : List Bytes) (opcode : Opcode) (conditions : List Bool) :
    ∃ taken, branchConditions unread stack opcode conditions = turned taken opcode conditions := by
  cases opcode with
  | opIf | opNotIf => exact ⟨_, rfl⟩
  | opElse | opEndIf => cases conditions <;> exact ⟨false, rfl⟩
  | _ => exact ⟨false, rfl⟩

/-- A run follows one of the paths, and its stack is as deep as the path says. -/
lemma shallow_reached (shallow : Shallow [] stack.length (opcodesOf script.length script))
    (reached : Reached H flags checker script stack opcodes conditions state rest) :
    ∃ steps, rest.length ≤ steps ∧ Shallow conditions state.stack.length (opcodesOf steps rest) := by
  induction reached with
  | start => exact ⟨_, Nat.le_refl _, shallow⟩
  | @step _ conditions state next byte rest behind unread earlier stepped ih =>
    obtain ⟨steps, enough, shallow⟩ := ih
    obtain ⟨steps, rfl⟩ := Nat.exists_eq_add_of_lt (Nat.lt_of_lt_of_le (Nat.succ_pos _) enough)
    obtain ⟨taken, isTurned⟩ := branchConditions_turned unread state.stack (ofByte byte) conditions
    have rest_le := scriptStep_rest stepped
    rw [isTurned, depth_step stepped, fExec_effective (vfExec_reached earlier), (scriptStep_branches stepped).1]
    rw [Nat.zero_add] at enough shallow
    refine ⟨steps, ?_, shallow.2 taken⟩
    rw [← (scriptStep_branches stepped).1]
    exact Nat.le_trans rest_le (Nat.le_of_succ_le_succ enough)

/-- A script without conditionals has one path, and a run that succeeds takes it. -/
lemma shallow_of_reached {steps : Nat} {final : ScriptState}
    (limited : ∀ opcodes conditions state rest, Reached H flags checker script stack opcodes conditions state rest →
      state.stack.length ≤ maxStackSize)
    (reached : Reached H flags checker script stack opcodes [] state rest)
    (straight : ∀ opcode ∈ opcodesOf steps rest, opcode.branches = false)
    (done : evalSteps H flags checker steps state rest = .ok final) :
    Shallow [] state.stack.length (opcodesOf steps rest) := by
  induction steps generalizing opcodes state rest with
  | zero => exact limited _ _ _ _ reached
  | succ steps ih =>
    cases rest with
    | nil => exact limited _ _ _ _ reached
    | cons byte rest =>
      obtain ⟨⟨next, behind⟩, stepped, ran⟩ := Decoder.bind_eq_ok_iff.mp done
      obtain ⟨here, later⟩ := forall_mem_cons.mp straight
      have none : ∀ taken, turned taken (ofByte byte) [] = [] := by
        cases isOp : ofByte byte <;> simp_all [turned, branches]
      obtain ⟨taken, isTurned⟩ := branchConditions_turned false state.stack (ofByte byte) []
      have after := Reached.step false reached stepped
      rw [isTurned, none] at after
      obtain ⟨rfl, -⟩ := scriptStep_branches stepped
      refine ⟨limited _ _ _ _ reached, fun taken => ?_⟩
      have depth := depth_step stepped
      rw [fExec_effective (vfExec_reached reached)] at depth
      rw [none, ← depth]
      exact ih after later ran

end

def permissiveChecker : SignatureChecker := ⟨fun _ _ => true, fun _ => true, fun _ => true⟩

lemma runs_pushes (count : Nat) (stack : List Bytes) :
    Runs H flags checker (replicate count [1, 7]).flatten ⟨stack, [], 0⟩
    ⟨replicate count [7] ++ stack, [], 0⟩ := by
  induction count generalizing stack with
  | zero => exact Runs.nil _
  | succ count ih =>
    have last : replicate (count + 1) ([7] : Bytes) = replicate count [7] ++ [[7]] := replicate_succ'
    rw [last, append_assoc]
    exact Runs.step rfl (ih ([7] :: stack))

end Dilithion
