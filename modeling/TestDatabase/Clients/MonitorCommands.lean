import Mathlib.Logic.Function.Basic
import TestDatabase.Lib.EventMachine

/-!
# Interactive monitor clients

`monitor` and `monitormany` monitor channels and take commands from a user.  Their
`ClientMonitor` makes a `PvaClientMonitor` when its channel connects and uses it in the
callback `monitorConnect` and in the commands `start` and `stop`; in `monitormany` the
command `connectMonitor` makes it too.  The flags that guard these uses are set by other
threads, without a lock, so the methods are modelled statement by statement and the threads
take turns between statements.

What makes the guards good is that a flag is set only where the monitor is known to exist.
This can be read off the statements of a method alone.

## Main definitions

* `Statement`, `Statement.exec` — the statements of the methods.
* `Program.body` — the commands of the two programs.
* `monitorClient` — the event machine of the callbacks and the user.
* `knowsMonitor` — every use in a list of statements comes after a guard.

## Main results

* `Inv.exec` — one statement keeps what the flags say of the monitor.
* `nullUsed_eq_false` — **the monitor is used only when there is one**, in `monitor` as long
  as `start` is not called before.
-/

namespace TestDatabase.MonitorCommands

/-! ### The methods -/

/-- A statement of a method of `ClientMonitor`. -/
inductive Statement
  | setChannelConnected (isConnected : Bool)
  | setMonitorConnected
  | setStarted (isStarted : Bool)
  /-- `if(!channelConnected) return;` -/
  | returnUnlessChannelConnected
  /-- `if(!monitorConnected) return;` -/
  | returnUnlessMonitorConnected
  /-- `if(isStarted) return;` -/
  | returnIfStarted
  /-- `if(!isStarted) return;` -/
  | returnUnlessStarted
  /-- `if(pvaClientMonitor) return;` -/
  | returnIfMonitor
  /-- `pvaClientMonitor = pvaClientChannel->createMonitor(request);` -/
  | createMonitor
  /-- A call of a method of `pvaClientMonitor`. -/
  | useMonitor
  /-- `pvaClientMonitor->issueConnect();` -/
  | issueConnect
  /-- A text is printed. -/
  | print
  deriving DecidableEq, Repr

/-- The members of a `ClientMonitor`. -/
structure ClientMonitor where
  channelConnected : Bool := false
  monitorConnected : Bool := false
  isStarted : Bool := false
  /-- `pvaClientMonitor` is not null. -/
  pvaClientMonitor : Bool := false
  /-- `issueConnect` has been called on a monitor, so that it will report its connect. -/
  connectIssued : Bool := false
  /-- A null `pvaClientMonitor` has been used. -/
  nullUsed : Bool := false
  deriving DecidableEq, Repr

/-- Execute a statement.  The result also says whether the method goes on. -/
def Statement.exec (c : ClientMonitor) : Statement → ClientMonitor × Bool
  | setChannelConnected isConnected => ({ c with channelConnected := isConnected }, true)
  | setMonitorConnected => ({ c with monitorConnected := true }, true)
  | setStarted isStarted => ({ c with isStarted := isStarted }, true)
  | returnUnlessChannelConnected => (c, c.channelConnected)
  | returnUnlessMonitorConnected => (c, c.monitorConnected)
  | returnIfStarted => (c, !c.isStarted)
  | returnUnlessStarted => (c, c.isStarted)
  | returnIfMonitor => (c, !c.pvaClientMonitor)
  | createMonitor => ({ c with pvaClientMonitor := true }, true)
  | useMonitor => ({ c with nullUsed := c.nullUsed || !c.pvaClientMonitor }, true)
  | issueConnect =>
    ({ c with connectIssued := true, nullUsed := c.nullUsed || !c.pvaClientMonitor }, true)
  | print => (c, true)

/-- The end of `channelStateChange` and of `connectMonitor`. -/
def makeMonitor : List Statement :=
  [.returnIfMonitor, .createMonitor,
    -- `setRequester`
    .useMonitor, .issueConnect]

/-- `channelStateChange` -/
def channelStateChange (isConnected : Bool) : List Statement :=
  .setChannelConnected isConnected :: if isConnected then makeMonitor else []

/-- `monitorConnect` -/
def monitorConnect (isOK : Bool) : List Statement :=
  if isOK then [.setMonitorConnected, .returnIfStarted, .setStarted true, .useMonitor] else []

/-- What a user can type. -/
inductive Command
  | start
  | stop
  | connectMonitor
  deriving DecidableEq, Repr

/-- The programs. -/
inductive Program
  /-- `fastcalc/monitor.cpp` -/
  | monitor
  /-- `timeManyChannels/monitormany.cpp` -/
  | monitormany
  deriving DecidableEq, Repr

/-- The method of a command, if the program has the command. -/
def Program.body : Program → Command → Option (List Statement)
  -- `start` prints that the client is not connected, and goes on
  | monitor, .start => some [.print, .setStarted true, .useMonitor]
  | monitor, .stop => some [.returnUnlessStarted, .setStarted false, .useMonitor]
  | monitor, .connectMonitor => none
  | monitormany, .start =>
    some [.returnUnlessChannelConnected, .returnUnlessMonitorConnected, .setStarted true,
      .useMonitor]
  | monitormany, .stop =>
    some [.returnUnlessChannelConnected, .returnUnlessMonitorConnected, .returnUnlessStarted,
      .setStarted false, .useMonitor]
  | monitormany, .connectMonitor => some (.returnUnlessChannelConnected :: makeMonitor)

/-! ### The threads -/

/-- The threads: each executes one method at a time. -/
inductive Thread
  /-- The one that calls `channelStateChange`. -/
  | channel
  /-- The one that calls `monitorConnect`. -/
  | monitor
  /-- `main` -/
  | user
  deriving DecidableEq, Repr

/-- The client and what each thread has still to execute of its method. -/
structure World where
  client : ClientMonitor := {}
  running : Thread → List Statement := fun _ => []

inductive Event
  | channelStateChange (isConnected : Bool)
  | monitorConnect (isOK : Bool)
  | command (command : Command)
  /-- A thread executes one statement. -/
  | run (thread : Thread)
  deriving DecidableEq, Repr

namespace World

/-- A thread that is in no method enters one. -/
def call (w : World) (thread : Thread) (body : List Statement) : Option World :=
  if w.running thread = [] then
    some { w with running := Function.update w.running thread body }
  else none

/-- One event.  `monitorConnect` is called for a monitor whose connect has been issued. -/
def step (program : Program) (w : World) : Event → Option World
  | .channelStateChange isConnected =>
    w.call .channel (MonitorCommands.channelStateChange isConnected)
  | .monitorConnect isOK =>
    if w.client.connectIssued then w.call .monitor (MonitorCommands.monitorConnect isOK) else none
  | .command command => (program.body command).bind fun body => w.call .user body
  | .run thread =>
    match w.running thread with
    | [] => none
    | statement :: rest =>
      let (client, goesOn) := statement.exec w.client
      some {
        client := client
        running := Function.update w.running thread (if goesOn then rest else []) }

end World

/-- A client of a program, among its callbacks and commands. -/
def monitorClient (program : Program) : EventMachine World Event where
  init := {}
  step := World.step program

/-! ### What the guards are good for -/

/-- Every use of the monitor, and every flag that stands for it, comes where the monitor is
known to exist: from the beginning, since it is created, or by a flag that stands for it. -/
def knowsMonitor : Bool → List Statement → Bool
  | true, _ => true
  | false, [] => true
  | false, statement :: rest =>
    match statement with
    | .useMonitor => false
    | .issueConnect => false
    | .setMonitorConnected => false
    | .setStarted isStarted => !isStarted && knowsMonitor false rest
    | .createMonitor => knowsMonitor true rest
    | .returnUnlessMonitorConnected => knowsMonitor true rest
    | .returnUnlessStarted => knowsMonitor true rest
    | _ => knowsMonitor false rest

@[simp] theorem knowsMonitor_true (body : List Statement) : knowsMonitor true body = true := by
  unfold knowsMonitor
  rfl

/-- The flags stand for the monitor, and no null monitor has been used. -/
structure ClientMonitor.Inv (c : ClientMonitor) : Prop where
  issued : c.connectIssued = true → c.pvaClientMonitor = true
  connected : c.monitorConnected = true → c.pvaClientMonitor = true
  started : c.isStarted = true → c.pvaClientMonitor = true
  safe : c.nullUsed = false

/-- **One statement** keeps what the flags say of the monitor and leaves the rest of its
method knowing as much of it as before. -/
theorem ClientMonitor.Inv.exec {c : ClientMonitor} (h : c.Inv) {statement : Statement}
    {rest : List Statement} (hknows : knowsMonitor c.pvaClientMonitor (statement :: rest) = true) :
    (statement.exec c).1.Inv ∧
      ((statement.exec c).2 = true →
        knowsMonitor (statement.exec c).1.pvaClientMonitor rest = true) := by
  obtain ⟨hissued, hconnected, hstarted, hsafe⟩ := h
  cases hmonitor : c.pvaClientMonitor with
  | true =>
    -- there is a monitor, and no statement takes it away
    have hstays : (statement.exec c).1.pvaClientMonitor = true := by
      cases statement <;> simp [Statement.exec, hmonitor]
    have hsafe' : (statement.exec c).1.nullUsed = false := by
      cases statement <;> simp [Statement.exec, hmonitor, hsafe]
    exact ⟨⟨fun _ => hstays, fun _ => hstays, fun _ => hstays, hsafe'⟩,
      fun _ => by rw [hstays, knowsMonitor_true]⟩
  | false =>
    -- there is none, so no flag stands for one
    rw [hmonitor] at hknows
    have hunconnected : c.monitorConnected = false := by
      by_contra hset
      rw [hconnected (by simpa using hset)] at hmonitor
      exact absurd hmonitor Bool.noConfusion
    have hunstarted : c.isStarted = false := by
      by_contra hset
      rw [hstarted (by simpa using hset)] at hmonitor
      exact absurd hmonitor Bool.noConfusion
    cases statement with
    | useMonitor | issueConnect | setMonitorConnected => exact absurd hknows Bool.noConfusion
    | setStarted isStarted =>
      simp only [knowsMonitor, Bool.and_eq_true, Bool.not_eq_true'] at hknows
      obtain ⟨rfl, hrest⟩ := hknows
      refine ⟨⟨hissued, hconnected, fun hset => absurd hset Bool.noConfusion, hsafe⟩, fun _ => ?_⟩
      simpa [Statement.exec, hmonitor] using hrest
    | createMonitor =>
      exact ⟨⟨fun _ => rfl, fun _ => rfl, fun _ => rfl, hsafe⟩, fun _ => knowsMonitor_true rest⟩
    | returnUnlessMonitorConnected =>
      refine ⟨⟨hissued, hconnected, hstarted, hsafe⟩, fun hgoes => ?_⟩
      simp [Statement.exec, hunconnected] at hgoes
    | returnUnlessStarted =>
      refine ⟨⟨hissued, hconnected, hstarted, hsafe⟩, fun hgoes => ?_⟩
      simp [Statement.exec, hunstarted] at hgoes
    | setChannelConnected | returnUnlessChannelConnected | returnIfStarted | returnIfMonitor |
        print =>
      refine ⟨⟨hissued, hconnected, hstarted, hsafe⟩, fun _ => ?_⟩
      simpa [Statement.exec, hmonitor, knowsMonitor] using hknows

/-- No statement takes the monitor away, so what a thread knew it still knows. -/
theorem knowsMonitor_exec {c : ClientMonitor} (statement : Statement) {body : List Statement}
    (hknows : knowsMonitor c.pvaClientMonitor body = true) :
    knowsMonitor (statement.exec c).1.pvaClientMonitor body = true := by
  cases statement with
  | createMonitor => exact knowsMonitor_true body
  | _ => exact hknows

/-! ### The invariant of a run -/

/-- The invariant of the client and its threads. -/
structure World.Inv (w : World) : Prop where
  client : w.client.Inv
  knows : ∀ thread, knowsMonitor w.client.pvaClientMonitor (w.running thread) = true

/-- A thread may enter a method that knows of the monitor. -/
theorem World.Inv.call {w w' : World} (h : w.Inv) {thread : Thread} {body : List Statement}
    (hbody : knowsMonitor w.client.pvaClientMonitor body = true)
    (hcall : w.call thread body = some w') : w'.Inv := by
  simp only [World.call, Option.ite_none_right_eq_some, Option.some.injEq] at hcall
  obtain ⟨-, rfl⟩ := hcall
  refine ⟨h.client, fun thread' => ?_⟩
  show knowsMonitor w.client.pvaClientMonitor (Function.update w.running thread body thread') = true
  by_cases heq : thread' = thread
  · rw [heq, Function.update_self]
    exact hbody
  · rw [Function.update_of_ne heq]
    exact h.knows thread'

/-- In `monitor` the command `start` calls `start()` only when there is a monitor. -/
def StartsWithMonitor (program : Program) (w : World) (e : Event) : Prop :=
  program = .monitor → e = .command .start → w.client.pvaClientMonitor = true

/-- Every command of the two programs knows of the monitor, but `start` of `monitor`. -/
theorem knowsMonitor_body {program : Program} {w : World} {command : Command}
    {body : List Statement} (hbody : program.body command = some body)
    (hstart : StartsWithMonitor program w (.command command)) :
    knowsMonitor w.client.pvaClientMonitor body = true := by
  cases hmonitor : w.client.pvaClientMonitor with
  | true => exact knowsMonitor_true body
  | false =>
    cases program with
    | monitor =>
      cases command with
      | start => exact absurd ((hstart rfl rfl).symm.trans hmonitor) Bool.noConfusion
      | stop =>
        obtain rfl := Option.some.inj hbody
        rfl
      | connectMonitor => exact absurd hbody (by simp [Program.body])
    | monitormany =>
      cases command with
      | start | stop | connectMonitor =>
        obtain rfl := Option.some.inj hbody
        rfl

/-- **Every event keeps the invariant**, unless `start()` is called too early. -/
theorem World.Inv.step {program : Program} {w w' : World} {e : Event} (h : w.Inv)
    (hstart : StartsWithMonitor program w e) (hs : w.step program e = some w') : w'.Inv := by
  cases e with
  | channelStateChange isConnected =>
    refine h.call ?_ hs
    cases w.client.pvaClientMonitor with
    | true => exact knowsMonitor_true _
    | false => cases isConnected <;> rfl
  | monitorConnect isOK =>
    simp only [World.step, Option.ite_none_right_eq_some] at hs
    refine h.call ?_ hs.2
    rw [h.client.issued hs.1, knowsMonitor_true]
  | command command =>
    obtain ⟨body, hbody, hcall⟩ := Option.bind_eq_some_iff.mp hs
    exact h.call (knowsMonitor_body hbody hstart) hcall
  | run thread =>
    cases hrunning : w.running thread with
    | nil => simp [World.step, hrunning] at hs
    | cons statement rest =>
      simp only [World.step, hrunning, Option.some.injEq] at hs
      subst hs
      have hknows := h.knows thread
      rw [hrunning] at hknows
      obtain ⟨hclient, hrest⟩ := h.client.exec hknows
      refine ⟨hclient, fun thread' => ?_⟩
      show knowsMonitor (statement.exec w.client).1.pvaClientMonitor
        (Function.update w.running thread
          (if (statement.exec w.client).2 then rest else []) thread') = true
      by_cases heq : thread' = thread
      · rw [heq, Function.update_self]
        split
        · next hgoes => exact hrest hgoes
        · cases (statement.exec w.client).1.pvaClientMonitor <;> rfl
      · rw [Function.update_of_ne heq]
        exact knowsMonitor_exec statement (h.knows thread')

/-- **The monitor is used only when there is one.**  However the callbacks and commands
interleave, `monitormany` never uses a null monitor; `monitor` does not in any run in which
`start()` is called only when there is a monitor. -/
theorem nullUsed_eq_false {program : Program} {w : World}
    (hw : (monitorClient program).ReachableVia (StartsWithMonitor program) w) :
    w.client.nullUsed = false := by
  have hinv : w.Inv := by
    refine hw.invariant ?_ fun _ _ _ h hstart hs => h.step hstart hs
    exact ⟨⟨Bool.noConfusion, Bool.noConfusion, Bool.noConfusion, rfl⟩, fun _ => rfl⟩
  exact hinv.client.safe

/-- A client of `monitormany` that is connected, stopped and started again. -/
theorem nullUsed_eq_false_restarted : ∃ w, (monitorClient .monitormany).Reachable w ∧
    w.client.isStarted = true ∧ w.client.nullUsed = false := by
  obtain ⟨w, hw, hstarted⟩ := (monitorClient .monitormany).exists_reachable_of_run
    [.channelStateChange true, .run .channel, .run .channel, .run .channel, .run .channel,
      .run .channel, .monitorConnect true, .run .monitor, .run .monitor, .run .monitor,
      .run .monitor, .command .stop, .run .user, .run .user, .run .user, .run .user, .run .user,
      .command .start, .run .user, .run .user, .run .user, .run .user]
    (fun w => w.client.isStarted) (by decide)
  exact ⟨w, hw, hstarted, nullUsed_eq_false (hw.mono fun _ _ _ hmonitor =>
    absurd hmonitor (by decide))⟩

/-- A `start()` called while there is no monitor ends at the null monitor if the user is not
overtaken by the channel. -/
theorem nullUsed_of_early_start {w : World} (hidle : w.running .user = [])
    (hmonitor : w.client.pvaClientMonitor = false) :
    ∃ w', (monitorClient .monitor).run w
        [.command .start, .run .user, .run .user, .run .user] = some w' ∧
      w'.client.nullUsed = true := by
  have hused : ((monitorClient .monitor).run w
      [.command .start, .run .user, .run .user, .run .user]).any
        (fun w' => w'.client.nullUsed) = true := by
    simp [EventMachine.run, monitorClient, World.step, Program.body, World.call, hidle,
      Statement.exec, hmonitor]
  exact (Option.any_eq_true _ _).mp hused

/-- `monitor` calls `start()` before the channel has connected. -/
theorem nullUsed_before_connect :
    ¬ ∀ program w, (monitorClient program).Reachable w → w.client.nullUsed = false := by
  intro h
  obtain ⟨w, hrun, hused⟩ := nullUsed_of_early_start (w := {}) rfl rfl
  have hw : (monitorClient .monitor).Reachable w := .of_run .init hrun
  exact absurd (hused.symm.trans (h .monitor w hw)) Bool.noConfusion

end TestDatabase.MonitorCommands
