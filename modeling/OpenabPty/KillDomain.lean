import OpenabPty.Basic
import Mathlib.Data.List.Basic

/-!
# The kill domain (`killdomain.rs`)

The budgets for tracked processes, what one session remembers of its processes, and the table of
processes it signals. A process is named by its place in the table, which only grows: its pid may
be given to another process once it is reaped and its group is empty. A process group is named by
the process that founded it, whose pid is the number of the group.
-/

namespace OpenabPty

abbrev Pid := Nat

/-- `TrackingLimits`. -/
structure TrackingLimits where
  maxTrackedPerSession : Nat
  maxTrackedGlobal : Nat
  reservedFdHeadroom : Nat

def TrackingLimits.default : TrackingLimits where
  maxTrackedPerSession := 64
  maxTrackedGlobal := 512
  reservedFdHeadroom := 128

/-- `fetch_sub` on a `usize`: below zero it wraps. -/
def fetchSub (count n : Nat) : Nat := if n ≤ count then count - n else count + 2 ^ 64 - n

theorem fetchSub_of_le {count n : Nat} (h : n ≤ count) : fetchSub count n = count - n := if_pos h

@[simp] theorem fetchSub_zero (count : Nat) : fetchSub count 0 = count :=
  fetchSub_of_le (Nat.zero_le count)

/-- `GlobalTracking`. -/
structure GlobalTracking where
  tracked : Nat
  limits : TrackingLimits
  fdBudget : Nat

namespace GlobalTracking

/-- `GlobalTracking::new`, for the soft limit of open files if it is known. -/
def new (limits : TrackingLimits) (openFileLimit : Option Nat) : GlobalTracking :=
  { tracked := 0, limits
    fdBudget := (openFileLimit.map (· - limits.reservedFdHeadroom)).getD (2 ^ 64 - 1) }

/-- `ceiling`. -/
def ceiling (g : GlobalTracking) : Nat := min g.limits.maxTrackedGlobal g.fdBudget

/-- `reserve`: one more slot, if the ceiling allows it. -/
def reserve (g : GlobalTracking) : Except Error GlobalTracking :=
  if g.ceiling ≤ g.tracked then .error (.capacityExceeded g.ceiling)
  else .ok { g with tracked := g.tracked + 1 }

/-- `release`. -/
def release (g : GlobalTracking) (n : Nat) : GlobalTracking :=
  { g with tracked := fetchSub g.tracked n }

end GlobalTracking

/-- `Signal`. -/
inductive Signal where
  | term
  | kill
  deriving DecidableEq, Repr

/-- A process: its pid, the founder of its group, and whether the runtime is its parent. -/
structure Process where
  pid : Pid
  group : Nat
  ours : Bool
  exited : Bool
  reaped : Bool
  deriving DecidableEq, Repr

/-- A signal that a process received, and the group it was in. -/
structure Delivery where
  process : Nat
  group : Nat
  signal : Signal
  deriving DecidableEq, Repr

/-- The table of processes, and the signals of one kill domain that reached a running process. -/
structure Kernel where
  processes : List Process
  delivered : List Delivery

namespace Kernel

def init : Kernel := { processes := [], delivered := [] }

/-- The number of the group of a process. -/
def pgid (k : Kernel) (q : Process) : Option Pid := k.processes[q.group]?.map (·.pid)

/-- A signal to every running process that `named` names. -/
def deliver (k : Kernel) (named : Nat → Process → Bool) (signal : Signal) : Kernel :=
  { k with
    delivered := k.delivered ++ (k.processes.zipIdx.filter fun e => !e.1.exited && named e.2 e.1).map
      fun e => { process := e.2, group := e.1.group, signal } }

/-- `signal_group`: `kill(-pgid, signal)`. -/
def signalGroup (k : Kernel) (pgid : Pid) (signal : Signal) : Kernel :=
  k.deliver (fun _ q => k.pgid q = some pgid) signal

/-- `signal_pid`: `kill(pid, signal)`. -/
def signalPid (k : Kernel) (pid : Pid) (signal : Signal) : Kernel :=
  k.deliver (fun _ q => q.pid = pid) signal

/-- `PidFd::send_signal`. -/
def signalPidFd (k : Kernel) (pidfd : Nat) (signal : Signal) : Kernel :=
  k.deliver (fun i _ => i = pidfd) signal

/-- `pid_alive`: a zombie is alive for `kill(pid, 0)`. -/
def pidAlive (k : Kernel) (pid : Pid) : Bool := k.processes.any fun q => !q.reaped && q.pid == pid

/-- `group_alive`: a member that has not exited. -/
def groupAlive (k : Kernel) (pgid : Pid) : Bool :=
  k.processes.any fun q => !q.exited && k.pgid q == some pgid

/-- `reap_nonblocking`: `waitpid(pid, WNOHANG)`. -/
def reapNonblocking (k : Kernel) (pid : Pid) : Kernel :=
  { k with
    processes := k.processes.map fun q =>
      if q.pid = pid ∧ q.ours = true ∧ q.exited = true then { q with reaped := true } else q }

/-- The process that has this pid now. -/
def holder (k : Kernel) (pid : Pid) : Option Nat :=
  k.processes.findIdx? fun q => !q.reaped && q.pid == pid

/-- Nobody uses this number: no process has it as its pid, and no group as its number. -/
def free (k : Kernel) (pid : Pid) : Bool :=
  k.processes.all fun q => q.reaped || (q.pid != pid && k.pgid q != some pid)

/-- A new process, in its own group or in one that is there. -/
def fork (k : Kernel) (pid : Pid) (group : Option Nat) (ours : Bool) : Kernel :=
  { k with
    processes := k.processes ++
      [{ pid, group := group.getD k.processes.length, ours, exited := false, reaped := false }] }

end Kernel

/-- `TrackedChild`; a pidfd is a handle on the process itself. -/
structure TrackedChild where
  pid : Pid
  pidfd : Option Nat
  deriving DecidableEq, Repr

/-- `SessionKillDomain`. -/
structure SessionKillDomain where
  leaderPgid : Option Pid
  tracked : List TrackedChild

/-- `KillDomain::open_session`. -/
def KillDomain.openSession : Except Error SessionKillDomain :=
  .ok { leaderPgid := none, tracked := [] }

namespace SessionKillDomain

/-- `track`; `pidfd` is what `PidFd::open` returned. -/
def track (d : SessionKillDomain) (global : GlobalTracking) (pid : Pid) (pidfd : Option Nat) :
    SessionKillDomain × GlobalTracking × Except Error Unit :=
  if global.limits.maxTrackedPerSession ≤ d.tracked.length then
    (d, global, .error (.capacityExceeded global.limits.maxTrackedPerSession))
  else
    match global.reserve with
    | .error error => (d, global, .error error)
    | .ok global => ({ d with tracked := d.tracked ++ [{ pid, pidfd }] }, global, .ok ())

/-- `set_leader`. -/
def setLeader (d : SessionKillDomain) (global : GlobalTracking) (pid : Pid) (pidfd : Option Nat) :
    SessionKillDomain × GlobalTracking × Except Error Unit :=
  { d with leaderPgid := some pid }.track global pid pidfd

/-- `release`. -/
def release (d : SessionKillDomain) (global : GlobalTracking) : SessionKillDomain × GlobalTracking :=
  ({ d with tracked := [] }, global.release d.tracked.length)

/-- The signal of `signal_tracked` to one child. -/
def signalChild (k : Kernel) (child : TrackedChild) (signal : Signal) : Kernel :=
  match child.pidfd with
  | some pidfd => k.signalPidFd pidfd signal
  | none => k.signalPid child.pid signal

/-- The signal to the group of the leader. -/
def signalLeader (d : SessionKillDomain) (k : Kernel) (signal : Signal) : Kernel :=
  match d.leaderPgid with
  | some pgid => k.signalGroup pgid signal
  | none => k

/-- `reap_tracked`. -/
def reapTracked (d : SessionKillDomain) (k : Kernel) : Kernel :=
  d.tracked.foldl (fun k child => k.reapNonblocking child.pid) k

/-- Reaping one child after the other reaps every exited child of ours that is tracked. -/
theorem reapTracked_eq (d : SessionKillDomain) (k : Kernel) :
    d.reapTracked k =
      { k with
        processes := k.processes.map fun q =>
          if q.pid ∈ d.tracked.map (·.pid) ∧ q.ours = true ∧ q.exited = true then
            { q with reaped := true }
          else q } := by
  unfold reapTracked
  induction d.tracked generalizing k with
  | nil => simp
  | cons child rest ih =>
    rw [List.foldl_cons, ih, Kernel.reapNonblocking, List.map_map]
    congr 1
    refine List.map_congr_left fun q _ => ?_
    simp only [Function.comp_apply, List.map_cons, List.mem_cons]
    by_cases hpid : q.pid = child.pid
    · by_cases hends : q.ours = true ∧ q.exited = true <;> simp [hpid, hends]
    · simp [hpid]

/-- Reaping twice is reaping once. -/
theorem reapTracked_reapTracked (d : SessionKillDomain) (k : Kernel) :
    d.reapTracked (d.reapTracked k) = d.reapTracked k := by
  simp only [reapTracked_eq, List.map_map]
  congr 1
  refine List.map_congr_left fun q _ => ?_
  rw [Function.comp_apply]
  split_ifs <;> simp_all

/-- The survivors that `terminate_tier1` reports. -/
def survivors (d : SessionKillDomain) (k : Kernel) : List Pid :=
  let pids := (d.tracked.filter fun child => k.pidAlive child.pid).map (·.pid)
  match d.leaderPgid with
  | some pgid => if k.groupAlive pgid && !pids.contains pgid then pids ++ [pgid] else pids
  | none => pids

end SessionKillDomain

end OpenabPty
