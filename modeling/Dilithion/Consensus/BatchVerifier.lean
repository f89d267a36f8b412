import Dilithion.Consensus.PayToKeyHash

/-! The batch verifier: a master that begins batches, adds tasks and waits, and workers that take tasks
from one queue and report to one counter and one flag. Tasks do not know their batch, so a batch can be
answered by the tasks of another. -/

namespace Dilithion

open List Option

inductive WorkerThread (τ : Type) where
  | idle
  | verifying (task : τ)
  /-- This worker was the first to mark the batch as failed. -/
  | recording (task : τ)
  | finishing (task : τ)
  deriving DecidableEq

structure CSignatureBatchVerifier (τ : Type) where
  queue : List τ
  pendingCount : UInt64
  batchFailed : Bool
  firstError : String
  workers : List (WorkerThread τ)

namespace CSignatureBatchVerifier

variable {τ : Type}

def start (nuworkers : Nat) : CSignatureBatchVerifier τ where
  queue := []
  pendingCount := 0
  batchFailed := false
  firstError := ""
  workers := List.replicate nuworkers .idle

variable (verifier : CSignatureBatchVerifier τ)

def beginBatch : CSignatureBatchVerifier τ :=
  { verifier with pendingCount := 0, batchFailed := false, firstError := "" }

def add (task : τ) : CSignatureBatchVerifier τ :=
  { verifier with pendingCount := verifier.pendingCount + 1, queue := verifier.queue ++ [task] }

def wait : Option Check :=
  if verifier.pendingCount = 0 then
    if verifier.batchFailed then some (.error verifier.firstError) else some (.ok ())
  else none

section

variable (verifySingle : τ → Bool) (inputIndex : τ → Nat)

def becomes (worker : Nat) (thread : WorkerThread τ) : CSignatureBatchVerifier τ :=
  { verifier with workers := verifier.workers.set worker thread }

/-- The next atomic step of a worker; a worker without a task waits for the queue. -/
def workerStep (worker : Nat) : Option (CSignatureBatchVerifier τ) :=
  match verifier.workers[worker]? with
  | none => none
  | some .idle =>
    match verifier.queue with
    | [] => none
    | task :: rest => some { verifier.becomes worker (.verifying task) with queue := rest }
  | some (.verifying task) =>
    if verifySingle task then some (verifier.becomes worker (.finishing task))
    else if verifier.batchFailed then some (verifier.becomes worker (.finishing task))
    else some { verifier.becomes worker (.recording task) with batchFailed := true }
  | some (.recording task) =>
    some { verifier.becomes worker (.finishing task) with
      firstError := "Signature verification failed for input " ++ toString (inputIndex task) }
  | some (.finishing _) =>
    some { verifier.becomes worker .idle with pendingCount := verifier.pendingCount - 1 }

end

end CSignatureBatchVerifier

/-- A task with the number of the batch it was added to. The threads never see the number. -/
structure Ticket where
  task : CSignatureTask
  batch : Nat

/-- The verifier with the history of its batches: how many were begun, and the tasks of the last one. -/
structure Session where
  verifier : CSignatureBatchVerifier Ticket
  batch : Nat
  added : List CSignatureTask

inductive Move where
  | beginBatch
  | add (task : CSignatureTask)
  | wait
  | work (worker : Nat)

def Session.start (nuworkers : Nat) : Session := ⟨.start nuworkers, 0, []⟩

/-- One atomic step; `Wait` is a step of its own that returns when nothing is pending. -/
def Session.step (env : Env) (session : Session) : Move → Option Session
  | .beginBatch => some ⟨session.verifier.beginBatch, session.batch + 1, []⟩
  | .add task => some { session with
      verifier := session.verifier.add ⟨task, session.batch⟩, added := session.added ++ [task] }
  | .wait => session.verifier.wait.map fun _ => session
  | .work worker =>
    (session.verifier.workerStep (fun ticket => ticket.task.verifySingle env)
      (fun ticket => ticket.task.inputIndex) worker).map
      fun verifier => { session with verifier }

/-- The calls `BatchVerifyScripts` makes for a transaction, given the tasks it can prepare: the first input
without one ends the batch. -/
def batchVerifyScripts (prepared : List (Option CSignatureTask)) : List Move :=
  .beginBatch :: ((prepared.takeWhile Option.isSome).filterMap id).map Move.add ++
    if prepared.all Option.isSome then [.wait] else []

def WorkerThread.task? {τ : Type} : WorkerThread τ → Option τ
  | .idle => none
  | .verifying task | .recording task | .finishing task => some task

def WorkerThread.busy {τ : Type} (thread : WorkerThread τ) : Bool := thread.task?.isSome

namespace CSignatureBatchVerifier

variable {τ : Type} {verifier next : CSignatureBatchVerifier τ} {worker : Nat} {thread : WorkerThread τ}

section

variable (verifier)

def Unfinished (task : τ) : Prop :=
  task ∈ verifier.queue ∨ ∃ thread ∈ verifier.workers, thread.task? = some task

def Unverified (task : τ) : Prop :=
  task ∈ verifier.queue ∨ WorkerThread.verifying task ∈ verifier.workers

def unfinishedCount : Nat :=
  verifier.queue.length + verifier.workers.countP WorkerThread.busy

end

lemma Unverified.unfinished {task : τ} (unverified : verifier.Unverified task) : verifier.Unfinished task :=
  unverified.imp_right fun member => ⟨_, member, rfl⟩

lemma not_unfinished_of_count (none : verifier.unfinishedCount = 0) (task : τ) : ¬ verifier.Unfinished task := by
  obtain ⟨queue, idle⟩ := Nat.add_eq_zero_iff.mp none
  rintro (queued | ⟨thread, member, holds⟩)
  · rw [length_eq_zero_iff.mp queue] at queued
    cases queued
  · exact countP_eq_zero.mp idle thread member (by rw [WorkerThread.busy, holds]; rfl)

inductive Worked (verifySingle : τ → Bool) (inputIndex : τ → Nat)
    (verifier : CSignatureBatchVerifier τ) (worker : Nat) :
    WorkerThread τ → CSignatureBatchVerifier τ → Prop where
  | took {task : τ} {rest : List τ} : verifier.queue = task :: rest →
      Worked verifySingle inputIndex verifier worker .idle
        { verifier.becomes worker (.verifying task) with queue := rest }
  | settled {task : τ} : verifySingle task = true ∨ verifier.batchFailed = true →
      Worked verifySingle inputIndex verifier worker (.verifying task) (verifier.becomes worker (.finishing task))
  | marked {task : τ} : verifySingle task = false → verifier.batchFailed = false →
      Worked verifySingle inputIndex verifier worker (.verifying task)
        { verifier.becomes worker (.recording task) with batchFailed := true }
  | recorded {task : τ} : Worked verifySingle inputIndex verifier worker (.recording task)
      { verifier.becomes worker (.finishing task) with
        firstError := "Signature verification failed for input " ++ toString (inputIndex task) }
  | finished {task : τ} : Worked verifySingle inputIndex verifier worker (.finishing task)
      { verifier.becomes worker .idle with pendingCount := verifier.pendingCount - 1 }

lemma workerStep_worked {verifySingle : τ → Bool} {inputIndex : τ → Nat}
    (stepped : verifier.workerStep verifySingle inputIndex worker = some next) :
    ∃ thread, verifier.workers[worker]? = some thread ∧ Worked verifySingle inputIndex verifier worker thread next := by
  unfold workerStep at stepped
  split at stepped
  · cases stepped
  · rename_i here
    split at stepped
    · cases stepped
    · rename_i task rest isQueue
      cases stepped
      exact ⟨_, here, .took isQueue⟩
  · rename_i task here
    split at stepped
    · rename_i valid
      cases stepped
      exact ⟨_, here, .settled (.inl valid)⟩
    · rename_i invalid
      split at stepped
      · rename_i failed
        cases stepped
        exact ⟨_, here, .settled (.inr failed)⟩
      · rename_i sound
        cases stepped
        exact ⟨_, here, .marked (by simpa using invalid) (by simpa using sound)⟩
  · rename_i task here
    cases stepped
    exact ⟨_, here, .recorded⟩
  · rename_i task here
    cases stepped
    exact ⟨_, here, .finished⟩

lemma count_becomes (here : verifier.workers[worker]? = some thread) (other : WorkerThread τ) :
    (verifier.becomes worker other).workers.countP WorkerThread.busy + (if thread.busy then 1 else 0) =
      verifier.workers.countP WorkerThread.busy + (if other.busy then 1 else 0) := by
  obtain ⟨inside, same⟩ := List.getElem?_eq_some_iff.mp here
  have counted : (verifier.workers.set worker other).countP WorkerThread.busy =
      verifier.workers.countP WorkerThread.busy - (if (verifier.workers[worker]).busy then 1 else 0) +
        if other.busy then 1 else 0 := countP_set inside
  rw [same] at counted
  have atLeast : (if thread.busy then 1 else 0) ≤ verifier.workers.countP WorkerThread.busy := by
    split
    · rename_i busy
      exact countP_pos_iff.mpr ⟨thread, mem_of_getElem? here, busy⟩
    · exact Nat.zero_le _
  show (verifier.workers.set worker other).countP _ + _ = _
  omega

lemma unfinishedCount_becomes (here : verifier.workers[worker]? = some thread) (other : WorkerThread τ)
    (wasBusy : thread.busy = true) (busy : other.busy = true) :
    (verifier.becomes worker other).unfinishedCount = verifier.unfinishedCount := by
  have moved := count_becomes here other
  rw [wasBusy, busy] at moved
  exact congrArg (verifier.queue.length + ·) (Nat.add_right_cancel moved)

variable {member other : WorkerThread τ}

lemma mem_becomes (inside : member ∈ (verifier.becomes worker other).workers) :
    member ∈ verifier.workers ∨ member = other :=
  mem_or_eq_of_mem_set inside

lemma mem_becomes_of_ne (here : verifier.workers[worker]? = some thread)
    (inside : member ∈ verifier.workers) (apart : member ≠ thread) :
    member ∈ (verifier.becomes worker other).workers := by
  obtain ⟨index, found⟩ := mem_iff_getElem?.mp inside
  have elsewhere : worker ≠ index := by
    rintro rfl
    exact apart (some.inj (found.symm.trans here))
  exact mem_iff_getElem?.mpr ⟨index, by rw [becomes, List.getElem?_set_ne elsewhere]; exact found⟩

section

variable {verifySingle : τ → Bool} {inputIndex : τ → Nat}

section

variable (worked : Worked verifySingle inputIndex verifier worker thread next)
  (here : verifier.workers[worker]? = some thread)

include worked here

lemma Worked.unfinished {task : τ} (after : next.Unfinished task) : verifier.Unfinished task := by
  have member := mem_of_getElem? here
  cases worked with
  | took isQueue =>
    rcases after with queued | ⟨other, inside, holds⟩
    · exact .inl (by rw [isQueue]; exact mem_cons_of_mem _ queued)
    · rcases mem_becomes inside with before | rfl
      · exact .inr ⟨other, before, holds⟩
      · cases holds
        exact .inl (by rw [isQueue]; exact mem_cons_self)
  | settled _ | marked _ _ | recorded =>
    refine after.imp_right fun ⟨other, inside, holds⟩ => ?_
    rcases mem_becomes inside with before | rfl
    · exact ⟨other, before, holds⟩
    · exact ⟨_, member, holds⟩
  | finished =>
    refine after.imp_right fun ⟨other, inside, holds⟩ => ?_
    rcases mem_becomes inside with before | rfl
    · exact ⟨other, before, holds⟩
    · cases holds

lemma Worked.count : next.unfinishedCount = verifier.unfinishedCount ∧ next.pendingCount = verifier.pendingCount ∨
    next.unfinishedCount + 1 = verifier.unfinishedCount ∧ next.pendingCount = verifier.pendingCount - 1 := by
  cases worked with
  | @took task rest isQueue =>
    have moved : (verifier.becomes worker (.verifying task)).workers.countP WorkerThread.busy + 0 =
      verifier.workers.countP WorkerThread.busy + 1 := count_becomes here _
    refine .inl ⟨?_, rfl⟩
    rw [unfinishedCount, unfinishedCount, isQueue, length_cons]
    show rest.length + (verifier.becomes worker (.verifying task)).workers.countP WorkerThread.busy = _
    omega
  | @settled task _ => exact .inl ⟨unfinishedCount_becomes here (.finishing task) rfl rfl, rfl⟩
  | @marked task _ _ => exact .inl ⟨unfinishedCount_becomes here (.recording task) rfl rfl, rfl⟩
  | @recorded task => exact .inl ⟨unfinishedCount_becomes here (.finishing task) rfl rfl, rfl⟩
  | finished =>
    have moved : (verifier.becomes worker .idle).workers.countP WorkerThread.busy + 1 =
      verifier.workers.countP WorkerThread.busy + 0 := count_becomes here _
    refine .inr ⟨?_, rfl⟩
    show verifier.queue.length + (verifier.becomes worker .idle).workers.countP WorkerThread.busy + 1 =
      verifier.queue.length + verifier.workers.countP WorkerThread.busy
    omega

lemma Worked.counted (counted : verifier.pendingCount.toNat = verifier.unfinishedCount) :
    next.pendingCount.toNat = next.unfinishedCount := by
  rcases worked.count here with ⟨count, pending⟩ | ⟨count, pending⟩
  · rw [pending, counted, count]
  · have positive : 1 ≤ verifier.pendingCount := UInt64.le_iff_toNat_le.mpr (by
      have : (1 : UInt64).toNat = 1 := rfl
      omega)
    rw [pending, UInt64.toNat_sub_of_le _ _ positive, counted, ← count]
    rfl

/-- An invalid task that waits for its verdict goes on waiting, or the batch has failed. -/
lemma Worked.unverified {task : τ} (invalid : verifySingle task = false)
    (before : verifier.Unverified task) : next.batchFailed = true ∨ next.Unverified task := by
  cases worked with
  | took isQueue =>
    right
    rcases before with queued | inside
    · rw [isQueue] at queued
      rcases mem_cons.mp queued with rfl | queued
      · obtain ⟨bound, -⟩ := List.getElem?_eq_some_iff.mp here
        exact .inr (mem_set bound _)
      · exact .inl queued
    · exact .inr (mem_becomes_of_ne here inside nofun)
  | @settled other verdict =>
    rcases before with queued | inside
    · exact .inr (.inl queued)
    · by_cases same : task = other
      · subst same
        rcases verdict with valid | failed
        · rw [invalid] at valid
          cases valid
        · exact .inl failed
      · exact .inr (.inr (mem_becomes_of_ne here inside fun threads => same (WorkerThread.verifying.inj threads)))
  | marked _ _ => exact .inl rfl
  | recorded => exact .inr (before.imp_right fun inside => mem_becomes_of_ne here inside nofun)
  | finished => exact .inr (before.imp_right fun inside => mem_becomes_of_ne here inside nofun)

end

end

end CSignatureBatchVerifier

def failureText (task : CSignatureTask) : String :=
  "Signature verification failed for input " ++ toString task.inputIndex

namespace Session

/-- What is asked of a verifier in a state: `Wait` answers for the tasks of the last batch, when they are
finished, and a worker that is about to decrement the counter finds it positive. -/
structure Right (env : Env) (session : Session) : Prop where
  finished : ∀ answer, session.verifier.wait = some answer →
    ∀ ticket, ticket.batch = session.batch → ¬ session.verifier.Unfinished ticket
  answered : ∀ answer, session.verifier.wait = some answer →
    (answer = .ok () ↔ ∀ task ∈ session.added, task.verifySingle env = true)
  named : ∀ text, session.verifier.wait = some (.error text) →
    ∃ task ∈ session.added, task.verifySingle env = false ∧ text = failureText task
  positive : ∀ ticket, WorkerThread.finishing ticket ∈ session.verifier.workers → 0 < session.verifier.pendingCount

/-- No batch is begun while tasks of an earlier one are unfinished, and the counter has room for a task. -/
def Meets (session : Session) : Move → Prop
  | .beginBatch => ∀ ticket, ¬ session.verifier.Unfinished ticket
  | .add _ => session.verifier.unfinishedCount + 1 < 2 ^ 64
  | .wait | .work _ => True

inductive Reached (env : Env) (numWorkers : Nat) : Session → Prop where
  | start : Reached env numWorkers (.start numWorkers)
  | move {session next : Session} (move : Move) : Reached env numWorkers session → session.Meets move →
      session.step env move = some next → Reached env numWorkers next

/-- Every unfinished task belongs to the last batch and is counted, and the flag tells of an invalid one. -/
structure Sound (env : Env) (session : Session) : Prop where
  counted : session.verifier.pendingCount.toNat = session.verifier.unfinishedCount
  current : ∀ ticket, session.verifier.Unfinished ticket → ticket.task ∈ session.added
  noticed : ∀ task ∈ session.added, task.verifySingle env = false →
    session.verifier.batchFailed = true ∨ ∃ ticket, ticket.task = task ∧ session.verifier.Unverified ticket
  recording : ∀ ticket, WorkerThread.recording ticket ∈ session.verifier.workers → ticket.task.verifySingle env = false
  recorded : session.verifier.batchFailed = true →
    (∃ ticket, WorkerThread.recording ticket ∈ session.verifier.workers) ∨
      ∃ task ∈ session.added, task.verifySingle env = false ∧ session.verifier.firstError = failureText task

variable {env : Env} {session next : Session}

lemma wait_eq_some {τ : Type} {verifier : CSignatureBatchVerifier τ} {answer : Check}
    (waited : verifier.wait = some answer) :
    verifier.pendingCount = 0 ∧ answer = if verifier.batchFailed then .error verifier.firstError else .ok () := by
  unfold CSignatureBatchVerifier.wait at waited
  split at waited
  · split at waited <;> simp_all
  · cases waited

section

variable (sound : session.Sound env)

include sound

lemma Sound.settled (quiet : session.verifier.pendingCount = 0) (ticket : Ticket) :
    ¬ session.verifier.Unfinished ticket :=
  CSignatureBatchVerifier.not_unfinished_of_count (sound.counted.symm.trans (congrArg UInt64.toNat quiet)) ticket

lemma Sound.blamed (quiet : session.verifier.pendingCount = 0) (failed : session.verifier.batchFailed = true) :
    ∃ task ∈ session.added, task.verifySingle env = false ∧ session.verifier.firstError = failureText task := by
  refine (sound.recorded failed).resolve_left ?_
  rintro ⟨ticket, inside⟩
  exact sound.settled quiet ticket (.inr ⟨_, inside, rfl⟩)

lemma Sound.right : session.Right env where
  finished := fun answer waited ticket _ => sound.settled (wait_eq_some waited).1 ticket
  answered := by
    intro answer waited
    obtain ⟨quiet, rfl⟩ := wait_eq_some waited
    by_cases failed : session.verifier.batchFailed = true
    · obtain ⟨task, member, invalid, -⟩ := sound.blamed quiet failed
      rw [if_pos failed]
      refine ⟨nofun, fun valid => ?_⟩
      rw [valid task member] at invalid
      cases invalid
    · rw [if_neg failed]
      refine ⟨fun _ task member => ?_, fun _ => rfl⟩
      by_contra invalid
      rcases sound.noticed task member (by simpa using invalid) with marked | ⟨ticket, -, unverified⟩
      · exact failed marked
      · exact sound.settled quiet ticket unverified.unfinished
  named := by
    intro text waited
    obtain ⟨quiet, answer⟩ := wait_eq_some waited
    by_cases failed : session.verifier.batchFailed = true
    · obtain ⟨task, member, invalid, error⟩ := sound.blamed quiet failed
      rw [if_pos failed] at answer
      exact ⟨task, member, invalid, (Except.error.inj answer).trans error⟩
    · rw [if_neg failed] at answer
      cases answer
  positive := by
    intro ticket inside
    have count : 0 < session.verifier.unfinishedCount :=
      Nat.add_pos_right _ (countP_pos_iff.mpr ⟨_, inside, rfl⟩)
    rw [← sound.counted] at count
    exact UInt64.lt_iff_toNat_lt.mpr count

end

lemma sound_start (env : Env) (numWorkers : Nat) : (Session.start numWorkers).Sound env where
  counted := by
    have idle : (replicate numWorkers (WorkerThread.idle : WorkerThread Ticket)).countP WorkerThread.busy = 0 :=
      countP_eq_zero.mpr fun thread member => by
        rw [eq_of_mem_replicate member]
        exact Bool.false_ne_true
    exact (congrArg (0 + ·) idle).symm
  current := by
    rintro ticket (queued | ⟨thread, member, holds⟩)
    · cases queued
    · rw [eq_of_mem_replicate member] at holds
      cases holds
  noticed := nofun
  recording := fun ticket member => nomatch eq_of_mem_replicate member
  recorded := nofun

lemma Sound.beginBatch (quiet : ∀ ticket, ¬ session.verifier.Unfinished ticket) :
    Sound env ⟨session.verifier.beginBatch, session.batch + 1, []⟩ where
  counted := by
    have queue : session.verifier.queue = [] := eq_nil_iff_forall_not_mem.mpr fun ticket queued =>
      quiet ticket (.inl queued)
    have idle : session.verifier.workers.countP WorkerThread.busy = 0 :=
      countP_eq_zero.mpr fun thread member busy => by
        obtain ⟨ticket, holds⟩ := isSome_iff_exists.mp busy
        exact quiet ticket (.inr ⟨thread, member, holds⟩)
    show 0 = session.verifier.queue.length + session.verifier.workers.countP WorkerThread.busy
    rw [queue, idle]
    rfl
  current := fun ticket unfinished => absurd unfinished (quiet ticket)
  noticed := nofun
  recording := fun ticket inside => absurd (.inr ⟨_, inside, rfl⟩) (quiet ticket)
  recorded := nofun

section

variable (sound : session.Sound env)

include sound

lemma Sound.add (room : session.verifier.unfinishedCount + 1 < 2 ^ 64) (task : CSignatureTask) :
    Sound env { session with
      verifier := session.verifier.add ⟨task, session.batch⟩, added := session.added ++ [task] } where
  counted := by
    have grown : (session.verifier.add ⟨task, session.batch⟩).unfinishedCount =
        session.verifier.unfinishedCount + 1 := by
      simp only [CSignatureBatchVerifier.unfinishedCount, CSignatureBatchVerifier.add, length_append, length_singleton]
      omega
    have one : (1 : UInt64).toNat = 1 := rfl
    rw [grown, ← sound.counted]
    show (session.verifier.pendingCount + 1).toNat = _
    rw [UInt64.toNat_add, one, Nat.mod_eq_of_lt (by rw [sound.counted]; exact room)]
  current := by
    rintro ticket (queued | held)
    · rcases mem_append.mp queued with before | new
      · exact mem_append_left _ (sound.current ticket (.inl before))
      · cases mem_singleton.mp new
        exact mem_append_right _ mem_cons_self
    · exact mem_append_left _ (sound.current ticket (.inr held))
  noticed := by
    intro other member invalid
    rcases mem_append.mp member with before | new
    · refine (sound.noticed other before invalid).imp_right fun ⟨ticket, same, unverified⟩ => ?_
      exact ⟨ticket, same, unverified.imp_left (mem_append_left _)⟩
    · cases mem_singleton.mp new
      exact .inr ⟨⟨task, session.batch⟩, rfl, .inl (mem_append_right _ mem_cons_self)⟩
  recording := sound.recording
  recorded := by
    intro failed
    refine (sound.recorded failed).imp_right fun ⟨other, member, invalid, error⟩ => ?_
    exact ⟨other, mem_append_left _ member, invalid, error⟩

lemma Sound.work {worker : Nat} {thread : WorkerThread Ticket}
    {verifier : CSignatureBatchVerifier Ticket} (here : session.verifier.workers[worker]? = some thread)
    (worked : session.verifier.Worked (fun ticket => ticket.task.verifySingle env)
      (fun ticket => ticket.task.inputIndex) worker
      thread verifier) : Sound env { session with verifier } where
  counted := worked.counted here sound.counted
  current := fun ticket unfinished => sound.current ticket (worked.unfinished here unfinished)
  noticed := by
    intro task member invalid
    rcases sound.noticed task member invalid with failed | ⟨ticket, rfl, unverified⟩
    · refine .inl ?_
      cases worked with
      | took _ | settled _ | recorded | finished => exact failed
      | marked _ _ => rfl
    · exact (worked.unverified here invalid unverified).imp_right fun still => ⟨ticket, rfl, still⟩
  recording := by
    intro ticket inside
    cases worked with
    | took _ | settled _ | recorded | finished =>
      exact sound.recording ticket ((CSignatureBatchVerifier.mem_becomes inside).resolve_right nofun)
    | marked invalid _ =>
      rcases CSignatureBatchVerifier.mem_becomes inside with before | new
      · exact sound.recording ticket before
      · cases new
        exact invalid
  recorded := by
    intro failed
    have stays : (∀ ticket, thread ≠ .recording ticket) → ∀ other : WorkerThread Ticket,
        (∃ ticket, WorkerThread.recording ticket ∈ session.verifier.workers) →
        ∃ ticket, WorkerThread.recording ticket ∈ (session.verifier.becomes worker other).workers :=
      fun apart other ⟨ticket, inside⟩ =>
        ⟨ticket, CSignatureBatchVerifier.mem_becomes_of_ne here inside fun same => apart ticket same.symm⟩
    cases worked with
    | took _ | settled _ | finished => exact (sound.recorded failed).imp_left (stays nofun _)
    | @marked ticket _ _ =>
      obtain ⟨bound, -⟩ := List.getElem?_eq_some_iff.mp here
      exact .inl ⟨ticket, mem_set bound _⟩
    | @recorded ticket =>
      have inside := mem_of_getElem? here
      exact .inr ⟨ticket.task, sound.current ticket (.inr ⟨_, inside, rfl⟩), sound.recording ticket inside, rfl⟩

lemma Sound.step {move : Move} (meets : session.Meets move)
    (stepped : session.step env move = some next) : next.Sound env := by
  cases move with
  | beginBatch =>
    cases stepped
    exact Sound.beginBatch meets
  | add task =>
    cases stepped
    exact sound.add meets task
  | wait =>
    obtain ⟨answer, -, rfl⟩ := map_eq_some_iff.mp stepped
    exact sound
  | work worker =>
    obtain ⟨verifier, advanced, rfl⟩ := map_eq_some_iff.mp stepped
    obtain ⟨thread, here, worked⟩ := CSignatureBatchVerifier.workerStep_worked advanced
    exact sound.work here worked

end

/-- The `Add` calls of a batch, with steps of the workers before, between and after them. -/
inductive Serves (env : Env) : Session → List CSignatureTask → Session → Prop where
  | done (session : Session) : Serves env session [] session
  | add {session next last : Session} {task : CSignatureTask} {rest : List CSignatureTask} : session.Meets (.add task) →
      session.step env (.add task) = some next → Serves env next rest last → Serves env session (task :: rest) last
  | work {session next last : Session} {tasks : List CSignatureTask} (worker : Nat) :
      session.step env (.work worker) = some next → Serves env next tasks last → Serves env session tasks last

/-- What a call with these tasks may get: begun in this session, the batch is served until `Wait` returns. -/
def Answers (env : Env) (session : Session) (tasks : List CSignatureTask) (answer : Check) : Prop :=
  ∃ begun last, session.step env .beginBatch = some begun ∧ Serves env begun tasks last ∧
    last.verifier.wait = some answer

lemma step_verifying {worker : Nat} {ticket : Ticket}
    (here : session.verifier.workers[worker]? = some (.verifying ticket))
    (valid : ticket.task.verifySingle env = true) : session.step env (.work worker) =
      some { session with verifier := session.verifier.becomes worker (.finishing ticket) } := by
  simp [Session.step, CSignatureBatchVerifier.workerStep, here, valid]

lemma Serves.sound {tasks : List CSignatureTask} (serves : Serves env session tasks next) (sound : session.Sound env) :
    next.Sound env ∧ next.added = session.added ++ tasks := by
  induction serves with
  | done session => exact ⟨sound, (append_nil _).symm⟩
  | add meets stepped _ ih =>
    obtain ⟨soundLast, added⟩ := ih (sound.step meets stepped)
    cases stepped
    exact ⟨soundLast, added.trans (append_assoc ..)⟩
  | @work session _ _ _ worker stepped _ ih =>
    obtain ⟨soundLast, added⟩ := ih (sound.step (show session.Meets (.work worker) from trivial) stepped)
    obtain ⟨verifier, -, rfl⟩ := map_eq_some_iff.mp stepped
    exact ⟨soundLast, added⟩

lemma Answers.ok_iff {tasks : List CSignatureTask} {answer : Check}
    (quiet : ∀ ticket, ¬ session.verifier.Unfinished ticket)
    (answers : session.Answers env tasks answer) : answer = .ok () ↔ ∀ task ∈ tasks, task.verifySingle env = true := by
  obtain ⟨begun, last, stepped, serves, waited⟩ := answers
  cases stepped
  obtain ⟨sound, added⟩ := serves.sound (Sound.beginBatch quiet)
  rw [sound.right.answered answer waited, added, nil_append]

/-- In every interleaving in which no batch is begun over unfinished tasks, `Wait` answers for its batch. -/
theorem right_of_reached (env : Env) (numWorkers : Nat) (session : Session) (reached : Reached env numWorkers session) :
    session.Right env := by
  suffices sound : session.Sound env from sound.right
  induction reached with
  | start => exact sound_start env numWorkers
  | move move _ meets stepped ih => exact ih.step meets stepped

def run (env : Env) : Session → List Move → Option Session
  | session, [] => some session
  | session, move :: rest => (session.step env move).bind fun next => next.run env rest

/-- A task whose signature starts with the byte, which the verifier of `trustingEnv` looks at. -/
def taskOf (byte : UInt8) (inputIndex : Nat) : CSignatureTask :=
  ⟨List.replicate dilithium3SigSize byte, List.replicate 32 0, List.replicate dilithium3PkSize 2, inputIndex⟩

lemma Reached.works {numWorkers : Nat} (reached : Reached env numWorkers session) (workers : List Nat)
    (worked : session.run env (workers.map .work) = some next) : Reached env numWorkers next ∧
    next.added = session.added := by
  induction workers generalizing session with
  | nil =>
    cases worked
    exact ⟨reached, rfl⟩
  | cons worker rest ih =>
    obtain ⟨between, stepped, later⟩ := bind_eq_some_iff.mp worked
    obtain ⟨reachedLast, added⟩ := ih (.move (.work worker) reached trivial stepped) later
    obtain ⟨verifier, -, rfl⟩ := map_eq_some_iff.mp stepped
    exact ⟨reachedLast, added⟩

/-- Of two tasks the second is invalid: the worker takes both, and `Wait` says no and names it. -/
theorem right_of_reached_answered : ∃ session, Reached trustingEnv 1 session ∧
    session.added = [taskOf 1 0, taskOf 0 1] ∧
    session.verifier.wait = some (.error (failureText (taskOf 0 1))) ∧ session.Right trustingEnv := by
  have begun : Reached trustingEnv 1 ⟨(CSignatureBatchVerifier.start 1).beginBatch, 1, []⟩ :=
    .move .beginBatch .start (CSignatureBatchVerifier.not_unfinished_of_count rfl) rfl
  have first : Reached trustingEnv 1
      ⟨(CSignatureBatchVerifier.start 1).beginBatch.add ⟨taskOf 1 0, 1⟩, 1, [taskOf 1 0]⟩ :=
    .move (.add (taskOf 1 0)) begun (show 0 + 1 < 2 ^ 64 by decide) rfl
  have both : Reached trustingEnv 1
      ⟨((CSignatureBatchVerifier.start 1).beginBatch.add ⟨taskOf 1 0, 1⟩).add ⟨taskOf 0 1, 1⟩, 1,
      [taskOf 1 0, taskOf 0 1]⟩ :=
    .move (.add (taskOf 0 1)) first (show 1 + 1 < 2 ^ 64 by decide) rfl
  have answers : (Session.run trustingEnv
      ⟨((CSignatureBatchVerifier.start 1).beginBatch.add ⟨taskOf 1 0, 1⟩).add ⟨taskOf 0 1, 1⟩, 1,
        [taskOf 1 0, taskOf 0 1]⟩
      ((replicate 7 0).map .work)).any
        (fun session => decide (session.verifier.wait = some (.error (failureText (taskOf 0 1))))) = true := by
    decide +kernel
  obtain ⟨session, worked, answer⟩ := (any_eq_true _ _).mp answers
  obtain ⟨reached, added⟩ := both.works _ worked
  exact ⟨session, reached, added, of_decide_eq_true answer, right_of_reached trustingEnv 1 session reached⟩

end Session

/-- The calls of a transaction whose third input is unparsable, the calls of one with two signatures that do
not verify, and the worker taking up the tasks of the first before the second waits. -/
def staleRun : List Move :=
  batchVerifyScripts [some (Session.taskOf 1 0), some (Session.taskOf 1 1), none] ++
    [.beginBatch, .add (Session.taskOf 0 0), .add (Session.taskOf 0 1)] ++ List.replicate 6 (.work 0) ++ [.wait]

/-- `Wait` says yes to two invalid signatures that no worker has looked at; and a counter that is reset
under a worker goes below zero. -/
theorem stale_tasks_answer : ((Session.start 1).run trustingEnv staleRun).map (fun session =>
        (session.verifier.wait, session.verifier.queue.map Ticket.batch, session.batch,
          session.added.map (CSignatureTask.verifySingle trustingEnv))) =
      some (some (.ok ()), [2, 2], 2, [false, false]) ∧
    ((Session.start 1).run trustingEnv
        (batchVerifyScripts [some (Session.taskOf 1 0), none] ++ [.beginBatch] ++ List.replicate 3 (.work 0))).map
          (fun session => session.verifier.pendingCount) =
      some (0 - 1) := by
  decide +kernel

end Dilithion
