import TestDatabase.Clients.PutTarget
import TestDatabase.Clients.WorkerThreads

/-!
# The lines typed to getputmonitorrate

`main` of the program `getputmonitorrate` reads lines.  What a line is taken for depends on the
lines before: `putThread` stops the thread if there is one, and otherwise the next line holds the
names of its channels, whatever it says.  Before it reads on after a command that stops a
thread, `main` waits in `stop()`.  A command that concerns no thread may wait, too, for ever
perhaps, and by an exception in it `main` leaves its loop.  After `exit` it reads nothing more.

Here it is shown that the threads have no influence on how the lines that `main` reads are
taken, and which scripts of commands can be typed.

The commands that concern no thread are left out but for this.  It is assumed that a thread is
created without an exception, and that none leaves the `run()` of a thread, which would end the
program.

## Main definitions

* `Request` — what a line, or two, are taken for.
* `Session`, `Session.read` — `main` with its threads, and how it reads a line.
* `Reader`, `readLines` — the lines read with nothing but the threads started in mind.
* `Possible` — a thread is started where there is none, and stopped where there is one.

## Main results

* `Session.Reads.step` — `main` reads the lines as the reader does.
* `lines_decide` — **what is carried out depends on the lines only.**
* `readLines_possible` — **the scripts that can be typed.**
-/

namespace TestDatabase.TypedLines

open WorkerThreads
open PutTarget (splitValues)

/-- What `main` carries out. -/
inductive Request
  /-- `putThread`, with the names typed in the line after it. -/
  | startPutThread (channelNames : List (List Char))
  | stopPutThread
  | startGetThread
  | stopGetThread
  | putLocal
  | getLocal
  | get
  | put
  | stop
  | start
  | exit
  /-- Any other line. -/
  | report
  deriving DecidableEq, Repr

/-- The command to the threads. -/
def Request.command (nPvs : ℕ) : Request → Command
  | startPutThread channelNames => .toggle .put channelNames.length
  | stopPutThread => .toggle .put nPvs
  | startGetThread => .toggle .get nPvs
  | stopGetThread => .toggle .get nPvs
  | exit => .exit
  | _ => .other

/-- A line that neither starts nor stops a thread by itself. -/
def request (line : String) : Request :=
  if line = "putLocal" then .putLocal
  else if line = "getLocal" then .getLocal
  else if line = "get" then .get
  else if line = "put" then .put
  else if line = "stop" then .stop
  else if line = "start" then .start
  else if line = "exit" then .exit
  else .report

/-- `main` and its threads. -/
structure Session where
  world : World := {}
  /-- It has asked for the names of channels. -/
  asked : Bool := false
  /-- It is in a command that concerns no thread. -/
  within : Bool := false
  /-- An exception has led it out of its loop. -/
  thrown : Bool := false
  /-- What has been carried out, or begun. -/
  requests : List Request := []

inductive Event
  /-- A line is typed, and `main` reads it. -/
  | line (line : String)
  /-- A command that concerns no thread has been carried out. -/
  | returns
  /-- It throws. -/
  | throws
  /-- `main` makes its next step in `stop()`. -/
  | main
  | run (kind : Kind)
  | runPast (i : ℕ)
  deriving DecidableEq, Repr

namespace Session

/-- `main` has come back to the begin of its loop, or asks for names. -/
def Reading (m : Session) : Prop :=
  m.world.main = .reading ∧ m.within = false ∧ m.thrown = false

instance (m : Session) : Decidable m.Reading := inferInstanceAs (Decidable (_ ∧ _))

/-- Begin to carry out a request. -/
def carryOut (nPvs : ℕ) (m : Session) (r : Request) : Session :=
  { m with
    world := m.world.command (r.command nPvs)
    asked := false
    within := decide (r.command nPvs = .other)
    requests := m.requests ++ [r] }

/-- Read a line. -/
def read (nPvs : ℕ) (m : Session) (line : String) : Option Session :=
  if m.asked then
    (splitValues line.toList [] 0 1).map fun split => m.carryOut nPvs (.startPutThread split.1)
  else if line = "putThread" then
    if (m.world.pointer .put).isSome then some (m.carryOut nPvs .stopPutThread)
    else some { m with asked := true }
  else if line = "getThread" then
    if (m.world.pointer .get).isSome then some (m.carryOut nPvs .stopGetThread)
    else some (m.carryOut nPvs .startGetThread)
  else some (m.carryOut nPvs (request line))

/-- One event.  Lines are read between commands. -/
def step (nPvs : ℕ) (m : Session) : Event → Option Session
  | .line line => if m.Reading then m.read nPvs line else none
  | .returns => if m.within ∧ ¬ m.thrown then some { m with within := false } else none
  | .throws => if m.within ∧ ¬ m.thrown then some { m with thrown := true } else none
  | .main => (m.world.step .main).map fun world => { m with world }
  | .run kind => (m.world.step (.run kind)).map fun world => { m with world }
  | .runPast i => (m.world.step (.runPast i)).map fun world => { m with world }

end Session

/-- The program, run for `nPvs` channels. -/
def session (nPvs : ℕ) : EventMachine Session Event where
  init := {}
  step := Session.step nPvs

/-! ### The reader -/

/-- How a script goes on. -/
structure Script where
  /-- There is such a thread, and no line has been typed to stop it. -/
  running : Kind → Bool := fun _ => false
  /-- `exit` has been read. -/
  exited : Bool := false

/-- What must be remembered of the lines before. -/
structure Reader extends Script where
  asked : Bool := false
  requests : List Request := []

namespace Reader

/-- A request is read that neither starts nor stops a thread by itself. -/
def take (r : Reader) (req : Request) : Reader :=
  { r with exited := decide (req = .exit), asked := false, requests := r.requests ++ [req] }

/-- A request is read that starts or stops a thread. -/
def setRunning (r : Reader) (kind : Kind) (running : Bool) (req : Request) : Reader :=
  { r with
    running := Function.update r.running kind running
    asked := false
    requests := r.requests ++ [req] }

/-- Read a line.  None is read after `exit`. -/
def read (r : Reader) (line : String) : Reader :=
  if r.exited then r
  else if r.asked then r.setRunning .put true (.startPutThread (line.toList.splitOn ' '))
  else if line = "putThread" then
    if r.running .put then r.setRunning .put false .stopPutThread else { r with asked := true }
  else if line = "getThread" then
    if r.running .get then r.setRunning .get false .stopGetThread
    else r.setRunning .get true .startGetThread
  else r.take (request line)

end Reader

/-- The lines read one after the other. -/
def readLines (lines : List String) : Reader := lines.foldl Reader.read {}

example : (readLines ["putThread", "exit", "putThread", "exit"]).requests =
    [.startPutThread ["exit".toList], .stopPutThread, .exit] := by decide

/-- The lines that `main` has read in a run. -/
def linesOf (es : List Event) : List String :=
  es.filterMap fun
    | .line line => some line
    | _ => none

/-- The commands given in a run of the threads. -/
def commandsOf (ds : List WorkerThreads.Event) : List Command :=
  ds.filterMap fun
    | .command command => some command
    | _ => none

/-! ### The threads and the reader -/

/-- There is a thread of the kind, and no command has been given to stop it alone. -/
def Runs (w : World) (kind : Kind) : Prop :=
  (w.pointer kind).isSome = true ∧ w.main.target ≠ some (kind, false)

section world

variable {w w' : World} {kind : Kind}

/-- A thread that is pointed to may change. -/
theorem isSome_update {pointer : Kind → Option Worker} {kind : Kind} {worker new : Worker}
    (h : pointer kind = some worker) (kind' : Kind) :
    (Function.update pointer kind (some new) kind').isSome = (pointer kind').isSome := by
  by_cases heq : kind' = kind
  · subst heq
    rw [Function.update_self, h]
    rfl
  · rw [Function.update_of_ne heq]

theorem runs_of_reading (hmain : w.main = .reading) :
    Runs w kind ↔ (w.pointer kind).isSome = true := by
  rw [Runs, hmain]
  exact and_iff_left (by simp [MainStep.target])

/-- In `exit` no thread is stopped alone. -/
theorem exitGetThread_target : w.exitGetThread.main.target ≠ some (kind, false) := by
  unfold World.exitGetThread
  split <;> simp [MainStep.target]

/-- **While `main` stops a thread, no thread begins or ceases to run.** -/
theorem runs_mainStep (hs : w.mainStep = some w') : Runs w' kind ↔ Runs w kind := by
  unfold World.mainStep at hs
  split at hs
  · next stopped exiting hmain =>
    obtain ⟨worker, hpointer, rfl⟩ := Option.map_eq_some_iff.mp hs
    simp only [Runs, isSome_update hpointer, hmain, MainStep.target]
  · next stopped exiting hmain =>
    obtain ⟨worker, hpointer, hreturns⟩ := Option.bind_eq_some_iff.mp hs
    obtain ⟨-, rfl⟩ := Option.ite_none_right_eq_some.mp hreturns |>.imp_right Option.some.inj
    cases exiting with
    | true =>
      have hpointers : ((w.stopReturns stopped true worker).pointer kind).isSome =
          (w.pointer kind).isSome := by
        cases stopped <;> exact isSome_update hpointer kind
      have htarget : (w.stopReturns stopped true worker).main.target ≠ some (kind, false) := by
        cases stopped with
        | put => exact exitGetThread_target
        | get => simp [World.stopReturns, MainStep.target]
      have hbefore : w.main.target ≠ some (kind, false) := by simp [hmain, MainStep.target]
      rw [Runs, Runs, hpointers]
      exact and_congr_right fun _ => iff_of_true htarget hbefore
    | false =>
      -- the thread did not run any more, and its pointer is reset
      by_cases heq : kind = stopped
      · subst heq
        refine iff_of_false (fun h => ?_) fun h => h.2 (by rw [hmain, MainStep.target])
        simpa [World.stopReturns] using h.1
      · simp [Runs, World.stopReturns, hmain, MainStep.target, Function.update_of_ne heq,
          Ne.symm heq]
  · exact absurd hs (by simp)

/-- A step of a thread is none of `main`. -/
theorem runs_run {k : Kind} (hs : w.step (.run k) = some w') :
    w'.main = w.main ∧ ∀ kind, Runs w' kind ↔ Runs w kind := by
  obtain ⟨new, hnew, rfl⟩ := Option.map_eq_some_iff.mp hs
  obtain ⟨worker, hpointer, -⟩ := Option.bind_eq_some_iff.mp hnew
  refine ⟨rfl, fun kind => ?_⟩
  rw [Runs, Runs, isSome_update hpointer]

/-- **A command starts a thread, or stops it**, and any other does neither. -/
theorem runs_command (hmain : w.main = .reading) (command : Command) :
    Runs (w.command command) kind ↔
      match command with
      | .toggle k _ => if kind = k then ¬ Runs w kind else Runs w kind
      | _ => Runs w kind := by
  rw [runs_of_reading hmain]
  cases command with
  | other => exact runs_of_reading hmain
  | exit =>
    have hpointer : (w.command .exit).pointer = w.pointer := by
      unfold World.command World.exitGetThread
      simp only
      split <;> rfl
    have htarget : (w.command .exit).main.target ≠ some (kind, false) := by
      unfold World.command
      simp only
      split
      · simp [MainStep.target]
      · exact exitGetThread_target
    rw [Runs, hpointer]
    exact and_iff_left htarget
  | toggle k n =>
    cases hpointer : w.pointer k with
    | none =>
      have hworld : w.command (.toggle k n) =
          { w with pointer := Function.update w.pointer k (some { kind := k, nPvs := n }) } := by
        simp only [World.command, hpointer]
      have hreading : (w.command (.toggle k n)).main = .reading := by
        rw [hworld]
        exact hmain
      rw [runs_of_reading hreading, hworld]
      by_cases heq : kind = k
      · subst heq
        simp [hpointer]
      · simp [heq]
    | some worker =>
      have hworld : w.command (.toggle k n) = { w with main := .stopping k false } := by
        simp only [World.command, hpointer]
      rw [hworld, Runs, MainStep.target]
      by_cases heq : kind = k
      · subst heq
        simp [hpointer]
      · simp [heq, Ne.symm heq]

/-- `main` stops the threads to exit, or has exited. -/
def Exiting : MainStep → Prop
  | .reading => False
  | .stopping _ exiting => exiting = true
  | .waiting _ exiting => exiting = true
  | .exited => True

theorem exiting_exitGetThread : Exiting w.exitGetThread.main := by
  unfold World.exitGetThread
  simp only
  split
  · rfl
  · trivial

theorem exiting_command : Exiting (w.command .exit).main := by
  unfold World.command
  simp only
  split
  · rfl
  · exact exiting_exitGetThread

/-- **`main` does not come back from `exit`.** -/
theorem exiting_mainStep (hs : w.mainStep = some w') (h : Exiting w.main) : Exiting w'.main := by
  unfold World.mainStep at hs
  split at hs
  · next stopped exiting hmain =>
    obtain ⟨worker, -, rfl⟩ := Option.map_eq_some_iff.mp hs
    rw [hmain] at h
    exact h
  · next stopped exiting hmain =>
    obtain ⟨worker, -, hreturns⟩ := Option.bind_eq_some_iff.mp hs
    obtain ⟨-, rfl⟩ := Option.ite_none_right_eq_some.mp hreturns |>.imp_right Option.some.inj
    rw [hmain] at h
    obtain rfl : exiting = true := h
    cases stopped with
    | put => exact exiting_exitGetThread
    | get => trivial
  · exact absurd hs (by simp)

end world

/-- The reader knows what `main` has been told. -/
structure Reads (m : Session) (r : Reader) : Prop where
  requests : m.requests = r.requests
  asked : m.asked = r.asked
  running : ∀ kind, r.running kind = true ↔ Runs m.world kind
  exited : r.exited = true → Exiting m.world.main
  /-- Names are asked for to start a thread. -/
  asking : r.asked = true → m.world.main = .reading ∧ r.running .put = false

section reads

variable {nPvs : ℕ} {m m' : Session} {r : Reader}

/-- Whether a thread is pointed to when a line is read. -/
theorem Reads.isSome_eq (h : Reads m r) (hmain : m.world.main = .reading) (kind : Kind) :
    (m.world.pointer kind).isSome = r.running kind := by
  rw [Bool.eq_iff_iff, h.running kind, runs_of_reading hmain]

/-- Nothing is read after `exit`. -/
theorem Reads.not_exited (h : Reads m r) (hmain : m.world.main = .reading) : ¬ r.exited = true := by
  intro hexited
  have hexiting := h.exited hexited
  rw [hmain] at hexiting
  exact hexiting

/-- A request that is no command to a thread. -/
theorem Reads.take (h : Reads m r) (hmain : m.world.main = .reading) {req : Request}
    (hreq : ∀ k n, req.command nPvs ≠ .toggle k n) : Reads (m.carryOut nPvs req) (r.take req) where
  requests := congrArg (· ++ [req]) h.requests
  asked := rfl
  running kind := by
    refine (h.running kind).trans (Iff.symm ?_)
    refine (runs_command hmain (req.command nPvs)).trans ?_
    split
    · next k n hcommand => exact absurd hcommand (hreq k n)
    · exact Iff.rfl
  exited hexited := by
    obtain rfl : req = .exit := of_decide_eq_true hexited
    exact exiting_command
  asking := Bool.noConfusion

/-- A request that starts or stops a thread. -/
theorem Reads.setRunning (h : Reads m r) (hmain : m.world.main = .reading) {req : Request}
    {kind : Kind} {n : ℕ} (hreq : req.command nPvs = .toggle kind n) {running : Bool}
    (hrunning : r.running kind = !running) :
    Reads (m.carryOut nPvs req) (r.setRunning kind running req) where
  requests := congrArg (· ++ [req]) h.requests
  asked := rfl
  running kind' := by
    have hcommand : Runs (m.world.command (req.command nPvs)) kind' ↔ _ := runs_command hmain _
    rw [hreq] at hcommand
    refine Iff.trans ?_ (Iff.trans hcommand.symm (by rw [← hreq]; rfl))
    by_cases heq : kind' = kind
    · subst heq
      have hbefore := h.running kind'
      rw [hrunning] at hbefore
      simp only [Reader.setRunning, Function.update_self, if_true]
      rw [← hbefore]
      cases running <;> simp
    · simp only [Reader.setRunning, Function.update_of_ne heq, if_neg heq]
      exact h.running kind'
  exited hexited := absurd hexited (h.not_exited hmain)
  asking := Bool.noConfusion

/-- A line that is no command to a thread. -/
theorem request_command (line : String) (k : Kind) (n : ℕ) :
    (request line).command nPvs ≠ .toggle k n := by
  unfold request
  split_ifs <;> simp [Request.command]

/-- **`main` reads a line as the reader does.** -/
theorem Reads.read (h : Reads m r) (hmain : m.world.main = .reading) {line : String}
    (hs : m.read nPvs line = some m') :
    Reads m' (r.read line) ∧
      (m'.world = m.world ∧ m'.requests = m.requests ∨ ∃ req, m' = m.carryOut nPvs req) := by
  unfold Session.read at hs
  unfold Reader.read
  rw [if_neg (h.not_exited hmain)]
  rw [h.asked, PutTarget.splitValues_start, h.isSome_eq hmain, h.isSome_eq hmain] at hs
  split at hs
  · next hasked =>
    obtain rfl := Option.some.inj hs
    rw [if_pos hasked]
    exact ⟨h.setRunning hmain rfl (h.asking hasked).2, .inr ⟨_, rfl⟩⟩
  next hasked =>
  rw [if_neg hasked]
  split at hs
  · next hline =>
    rw [if_pos hline]
    split at hs
    · next hrunning =>
      obtain rfl := Option.some.inj hs
      rw [if_pos hrunning]
      exact ⟨h.setRunning hmain rfl hrunning, .inr ⟨_, rfl⟩⟩
    · next hrunning =>
      obtain rfl := Option.some.inj hs
      rw [if_neg hrunning]
      refine ⟨⟨h.requests, rfl, h.running, h.exited, fun _ => ⟨hmain, by simpa using hrunning⟩⟩, ?_⟩
      exact .inl ⟨rfl, rfl⟩
  next hput =>
  rw [if_neg hput]
  split at hs
  · next hline =>
    rw [if_pos hline]
    split at hs
    · next hrunning =>
      obtain rfl := Option.some.inj hs
      rw [if_pos hrunning]
      exact ⟨h.setRunning hmain rfl hrunning, .inr ⟨_, rfl⟩⟩
    · next hrunning =>
      obtain rfl := Option.some.inj hs
      rw [if_neg hrunning]
      exact ⟨h.setRunning hmain rfl (by simpa using hrunning), .inr ⟨_, rfl⟩⟩
  · next hget =>
    obtain rfl := Option.some.inj hs
    rw [if_neg hget]
    exact ⟨h.take hmain (request_command line), .inr ⟨_, rfl⟩⟩

/-- Steps of `main` in `stop()` and of the threads change nothing that the reader knows. -/
theorem Reads.world (h : Reads m r) {world : World}
    (hruns : ∀ kind, Runs world kind ↔ Runs m.world kind)
    (hexiting : Exiting m.world.main → Exiting world.main)
    (hmain : m.world.main = .reading → world.main = .reading) : Reads { m with world } r where
  requests := h.requests
  asked := h.asked
  running kind := (h.running kind).trans (hruns kind).symm
  exited hexited := hexiting (h.exited hexited)
  asking hasked := ⟨hmain (h.asking hasked).1, (h.asking hasked).2⟩

/-- `main` is told by the lines what the reader reads, and tells the threads. -/
structure Told (nPvs : ℕ) (es : List Event) (m : Session) : Prop where
  reads : Reads m (readLines (linesOf es))
  threads : ∃ ds, workerThreads.run {} ds = some m.world ∧
    commandsOf ds = m.requests.map (Request.command nPvs)

theorem told_init : Told nPvs [] {} where
  reads := ⟨rfl, rfl, fun kind => iff_of_false Bool.false_ne_true (fun h => by simp [Runs] at h),
    Bool.noConfusion, Bool.noConfusion⟩
  threads := ⟨[], rfl, rfl⟩

/-- An event that types no line. -/
theorem linesOf_concat {es : List Event} {e : Event} (hline : linesOf [e] = []) :
    linesOf (es ++ [e]) = linesOf es := by
  rw [linesOf, List.filterMap_append, ← linesOf, ← linesOf, hline, List.append_nil]

/-- An event that types no line and leaves the threads alone. -/
theorem Told.within {es : List Event} (h : Told nPvs es m) {e : Event} (hline : linesOf [e] = [])
    (within thrown : Bool) : Told nPvs (es ++ [e]) { m with within, thrown } where
  reads := by
    rw [linesOf_concat hline]
    exact ⟨h.reads.requests, h.reads.asked, h.reads.running, h.reads.exited, h.reads.asking⟩
  threads := h.threads

/-- An event that types no line, and a step of the threads that is no command. -/
theorem Told.threadStep {es : List Event} (h : Told nPvs es m) {e : Event}
    {d : WorkerThreads.Event} {world : World} (hline : linesOf [e] = []) (hcommand : commandsOf [d] = [])
    (hd : m.world.step d = some world) (hruns : ∀ kind, Runs world kind ↔ Runs m.world kind)
    (hexiting : Exiting m.world.main → Exiting world.main)
    (hmain : m.world.main = .reading → world.main = .reading) :
    Told nPvs (es ++ [e]) { m with world } where
  reads := by
    rw [linesOf_concat hline]
    exact h.reads.world hruns hexiting hmain
  threads := by
    obtain ⟨ds, hrun, hcommands⟩ := h.threads
    refine ⟨ds ++ [d], EventMachine.run_concat_eq_some.mpr ⟨_, hrun, hd⟩, ?_⟩
    rw [commandsOf, List.filterMap_append, ← commandsOf, ← commandsOf, hcommand, List.append_nil]
    exact hcommands

/-- **Every event keeps `main` told.** -/
theorem Told.step {es : List Event} (h : Told nPvs es m) {e : Event}
    (hs : m.step nPvs e = some m') : Told nPvs (es ++ [e]) m' := by
  cases e with
  | line line =>
    obtain ⟨⟨hmain, -⟩, hread⟩ := Option.ite_none_right_eq_some.mp hs
    obtain ⟨hreads, heffect⟩ := h.reads.read hmain hread
    have hlines : readLines (linesOf (es ++ [.line line])) = (readLines (linesOf es)).read line := by
      rw [linesOf, List.filterMap_append, readLines, List.foldl_append]
      rfl
    refine ⟨hlines ▸ hreads, ?_⟩
    obtain ⟨ds, hrun, hcommands⟩ := h.threads
    rcases heffect with ⟨hworld, hrequests⟩ | ⟨req, rfl⟩
    · exact ⟨ds, hworld ▸ hrun, hrequests ▸ hcommands⟩
    · refine ⟨ds ++ [.command (req.command nPvs)], ?_, ?_⟩
      · exact EventMachine.run_concat_eq_some.mpr ⟨m.world, hrun, if_pos hmain⟩
      · rw [commandsOf, List.filterMap_append, ← commandsOf, hcommands]
        simp [Session.carryOut]
  | returns =>
    obtain ⟨-, rfl⟩ := Option.ite_none_right_eq_some.mp hs |>.imp_right Option.some.inj
    exact h.within rfl false m.thrown
  | throws =>
    obtain ⟨-, rfl⟩ := Option.ite_none_right_eq_some.mp hs |>.imp_right Option.some.inj
    exact h.within rfl m.within true
  | main =>
    obtain ⟨world, hworld, rfl⟩ := Option.map_eq_some_iff.mp hs
    refine h.threadStep rfl rfl hworld (fun kind => runs_mainStep hworld)
      (exiting_mainStep hworld) fun hmain => ?_
    have hnone : m.world.step .main = none := by simp [World.step, World.mainStep, hmain]
    exact absurd (hworld.symm.trans hnone) (by simp)
  | run kind =>
    obtain ⟨world, hworld, rfl⟩ := Option.map_eq_some_iff.mp hs
    obtain ⟨hmain, hruns⟩ := runs_run hworld
    exact h.threadStep rfl rfl hworld hruns (hmain ▸ id) hmain.trans
  | runPast i =>
    obtain ⟨world, hworld, rfl⟩ := Option.map_eq_some_iff.mp hs
    obtain ⟨past, -, rfl⟩ := Option.map_eq_some_iff.mp hworld
    exact h.threadStep (d := .runPast i) rfl rfl hworld (fun kind => Iff.rfl) id id

/-- **What is carried out depends on the lines only.**  However the threads run, and however long
`main` waits in between, for them or in a command that concerns none: what has been carried out,
or begun, is what the lines that `main` has read are taken for, and `main` with its threads has
made a run with these commands. -/
theorem lines_decide {es : List Event} (hrun : (session nPvs).run {} es = some m) :
    m.requests = (readLines (linesOf es)).requests ∧
      ∃ ds, workerThreads.run {} ds = some m.world ∧
        commandsOf ds = m.requests.map (Request.command nPvs) := by
  have h : Told nPvs es m := EventMachine.run_history (M := session nPvs) told_init
    (fun _ _ _ _ h hs => h.step hs) hrun
  exact ⟨h.reads.requests, h.threads⟩

end reads

/-- A thread for two channels is started and stopped, and another begun. -/
def typedRun : List Event :=
  [.line "putThread", .line "PVRdouble PVRint", .run .put, .line "putThread", .main, .run .put,
    .main, .line "putThread", .line "exit"]

theorem lines_decide_typedRun :
    ∃ m, (session 1).run {} typedRun = some m ∧ m.requests =
      [.startPutThread ["PVRdouble".toList, "PVRint".toList], .stopPutThread,
        .startPutThread ["exit".toList]] := by
  have hsome : ((session 1).run {} typedRun).isSome = true := by decide +kernel
  obtain ⟨m, hrun⟩ := Option.isSome_iff_exists.mp hsome
  refine ⟨m, hrun, (lines_decide hrun).1.trans ?_⟩
  decide

/-! ### The scripts that can be typed -/

/-- A request, and the threads that run after it. -/
def Request.after (s : Script) : Request → Option Script
  | startPutThread channelNames =>
    if s.running .put = false ∧ channelNames ≠ [] ∧ ∀ name ∈ channelNames, ' ' ∉ name ∧ '\n' ∉ name
    then some { s with running := Function.update s.running .put true }
    else none
  | stopPutThread =>
    if s.running .put then some { s with running := Function.update s.running .put false } else none
  | startGetThread =>
    if s.running .get = false then some { s with running := Function.update s.running .get true }
    else none
  | stopGetThread =>
    if s.running .get then some { s with running := Function.update s.running .get false } else none
  | exit => some { s with exited := true }
  | _ => some s

/-- A thread is started where there is none, and stopped where there is one.  There are names
for the channels, without spaces and each on one line.  `exit` comes last. -/
def scripts : EventMachine Script Request where
  init := {}
  step s r := if s.exited then none else r.after s

/-- The requests are possible one after the other. -/
def Possible (requests : List Request) : Prop :=
  ∃ s, scripts.run scripts.init requests = some s

/-- A line as it is read: the newline that ends it is not part of it. -/
def IsLine (line : String) : Prop := '\n' ∉ line.toList

instance (line : String) : Decidable (IsLine line) := inferInstanceAs (Decidable (¬ _))

/-- What is typed for a request. -/
def Request.lines : Request → List String
  | startPutThread channelNames => ["putThread", String.ofList ([' '].intercalate channelNames)]
  | stopPutThread => ["putThread"]
  | startGetThread => ["getThread"]
  | stopGetThread => ["getThread"]
  | putLocal => ["putLocal"]
  | getLocal => ["getLocal"]
  | get => ["get"]
  | put => ["put"]
  | stop => ["stop"]
  | start => ["start"]
  | exit => ["exit"]
  | report => [""]

/-- What is typed for a possible request are lines. -/
theorem Request.isLine_of_after {s s' : Script} {req : Request} (hreq : req.after s = some s')
    {line : String} (hline : line ∈ req.lines) : IsLine line := by
  cases req with
  | startPutThread channelNames =>
    obtain ⟨-, -, hfree⟩ := (Option.ite_none_right_eq_some.mp hreq).1
    rcases List.mem_cons.mp hline with rfl | hline
    · decide
    · obtain rfl := List.mem_singleton.mp hline
      rw [IsLine, String.toList_ofList, Text.mem_intercalate_iff (by decide)]
      rintro ⟨name, hname, hmem⟩
      exact (hfree name hname).2 hmem
  | _ =>
    obtain rfl := List.mem_singleton.mp hline
    decide

namespace Reader

variable {r : Reader} {s : Script}

/-- **A possible request is read back from its lines.** -/
theorem read_lines {req : Request} (hexited : r.exited = false) (hasked : r.asked = false)
    (hreq : req.after r.toScript = some s) :
    req.lines.foldl Reader.read r =
      { s with asked := false, requests := r.requests ++ [req] } := by
  obtain ⟨⟨running, exited⟩, asked, requests⟩ := r
  obtain rfl : exited = false := hexited
  obtain rfl : asked = false := hasked
  cases req with
  | startPutThread channelNames =>
    obtain ⟨⟨hnot, hne, hfree⟩, rfl⟩ :=
      Option.ite_none_right_eq_some.mp hreq |>.imp_right Option.some.inj
    have hsplit : ([' '].intercalate channelNames).splitOn ' ' = channelNames :=
      List.splitOn_intercalate ' ' (fun name hname => (hfree name hname).1) hne
    have hnot : running .put = false := hnot
    simp [Request.lines, Reader.read, hnot, setRunning, hsplit]
  | stopPutThread =>
    obtain ⟨hrunning, rfl⟩ := Option.ite_none_right_eq_some.mp hreq |>.imp_right Option.some.inj
    have hrunning : running .put = true := hrunning
    simp [Request.lines, Reader.read, hrunning, setRunning]
  | startGetThread =>
    obtain ⟨hnot, rfl⟩ := Option.ite_none_right_eq_some.mp hreq |>.imp_right Option.some.inj
    have hnot : running .get = false := hnot
    simp [Request.lines, Reader.read, hnot, setRunning]
  | stopGetThread =>
    obtain ⟨hrunning, rfl⟩ := Option.ite_none_right_eq_some.mp hreq |>.imp_right Option.some.inj
    have hrunning : running .get = true := hrunning
    simp [Request.lines, Reader.read, hrunning, setRunning]
  | putLocal | getLocal | get | put | stop | start | exit | report =>
    obtain rfl := Option.some.inj hreq
    simp [Request.lines, Reader.read, take, request]

/-- Possible requests are read back one after the other, from lines. -/
theorem read_script {requests : List Request} (hasked : r.asked = false)
    (hrun : scripts.run r.toScript requests = some s) :
    (∀ line ∈ requests.flatMap Request.lines, IsLine line) ∧
      (requests.flatMap Request.lines).foldl Reader.read r =
        { s with asked := false, requests := r.requests ++ requests } := by
  induction requests generalizing r with
  | nil =>
    obtain rfl := Option.some.inj hrun
    simp [← hasked]
  | cons req requests ih =>
    obtain ⟨next, hnext, hrest⟩ := EventMachine.run_cons_eq_some.mp hrun
    obtain ⟨hexited, hreq⟩ := Option.ite_none_left_eq_some.mp hnext
    obtain ⟨hlines, hread⟩ :=
      ih (r := { next with asked := false, requests := r.requests ++ [req] }) rfl hrest
    rw [List.flatMap_cons, List.foldl_append, read_lines (by simpa using hexited) hasked hreq, hread]
    refine ⟨fun line hline => ?_, by simp⟩
    rcases List.mem_append.mp hline with hline | hline
    · exact Request.isLine_of_after hreq hline
    · exact hlines line hline

/-- What has been read is possible, and names are read for a thread to be started. -/
structure Scripted (r : Reader) : Prop where
  run : scripts.run scripts.init r.requests = some r.toScript
  asking : r.asked = true → r.running .put = false

/-- One more request is possible. -/
theorem Scripted.request (h : r.Scripted) (hexited : ¬ r.exited = true) {req : Request}
    (hreq : req.after r.toScript = some s) :
    scripts.run scripts.init (r.requests ++ [req]) = some s :=
  EventMachine.run_concat_eq_some.mpr ⟨r.toScript, h.run, (if_neg hexited).trans hreq⟩

theorem request_after (hexited : s.exited = false) (line : String) :
    (request line).after s = some { s with exited := decide (request line = .exit) } := by
  obtain ⟨running, exited⟩ := s
  obtain rfl : exited = false := hexited
  unfold request
  split_ifs <;> rfl

/-- **Every line is read as a possible request, or as the first half of one**, or not at all. -/
theorem Scripted.read (h : r.Scripted) {line : String} (hline : IsLine line) :
    (r.read line).Scripted := by
  unfold Reader.read
  split
  · exact h
  next hexited =>
  split
  · next hasked =>
    refine ⟨h.request hexited (if_pos ⟨h.asking hasked, List.splitOn_ne_nil _ _, ?_⟩),
      Bool.noConfusion⟩
    refine fun name hname => ⟨Text.not_mem_of_mem_splitOn hname, fun hmem => hline ?_⟩
    exact (Text.exists_mem_splitOn_iff (by decide)).mp ⟨name, hname, hmem⟩
  split
  · split
    · next hrunning => exact ⟨h.request hexited (if_pos hrunning), Bool.noConfusion⟩
    · next hnot => exact ⟨h.run, fun _ => by simpa using hnot⟩
  split
  · split
    · next hrunning => exact ⟨h.request hexited (if_pos hrunning), Bool.noConfusion⟩
    · next hnot => exact ⟨h.request hexited (if_pos (by simpa using hnot)), Bool.noConfusion⟩
  · exact ⟨h.request hexited (request_after (by simpa using hexited) line), Bool.noConfusion⟩

theorem scripted_readLines {lines : List String} (hlines : ∀ line ∈ lines, IsLine line) :
    (readLines lines).Scripted := by
  induction lines using List.reverseRecOn with
  | nil => exact ⟨rfl, Bool.noConfusion⟩
  | append_singleton lines line ih =>
    rw [readLines, List.foldl_append]
    have hbefore := ih fun line' hline' => hlines line' (List.mem_append_left _ hline')
    exact hbefore.read (hlines line (by simp))

end Reader

/-- **The scripts that can be typed.**  Whatever lines are typed, they are read as a script in
which threads are started and stopped by turns, up to the first `exit`.  Every such script can be
typed: it is read back from its lines. -/
theorem readLines_possible :
    (∀ lines, (∀ line ∈ lines, IsLine line) → Possible (readLines lines).requests) ∧
      ∀ requests, Possible requests →
        (∀ line ∈ requests.flatMap Request.lines, IsLine line) ∧
          (readLines (requests.flatMap Request.lines)).requests = requests := by
  refine ⟨fun lines hlines => ⟨_, (Reader.scripted_readLines hlines).run⟩, ?_⟩
  rintro requests ⟨s, hrun⟩
  obtain ⟨hlines, hread⟩ := Reader.read_script (r := {}) rfl hrun
  refine ⟨hlines, ?_⟩
  rw [readLines, hread]
  exact List.nil_append _

/-- A channel may have the name of a command. -/
theorem readLines_possible_exit :
    (readLines ["putThread", "PVRdouble exit", "getThread", "get", "putThread", "exit"]).requests =
      [.startPutThread ["PVRdouble".toList, "exit".toList], .startGetThread, .get, .stopPutThread,
        .exit] := by
  refine (readLines_possible.2 [.startPutThread ["PVRdouble".toList, "exit".toList],
    .startGetThread, .get, .stopPutThread, .exit] ?_).2
  exact Option.isSome_iff_exists.mp (by decide)

end TestDatabase.TypedLines
