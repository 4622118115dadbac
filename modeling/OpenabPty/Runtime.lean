import OpenabPty.Core.Trace
import OpenabPty.Core.Threads
import OpenabPty.Ops
import OpenabPty.Conn

/-!
# The running program

The operations of the manager, the connections and the output pumps as tasks over the shared
state: any number of each, in any order of their critical sections, while the clock moves.
-/

namespace OpenabPty

/-- The output pump of one session, the task `spawn_reader_thread` leaves behind. A chunk is
what the capability proxy keeps of it. -/
inductive Pump where
  | idle (sid : Sid)
  | write (sid : Sid) (chunk : List UInt8)
  | touch (sid : Sid) (chunk : List UInt8)
  | subscriber (sid : Sid) (chunk : List UInt8)
  | push (sid : Sid) (chunk : List UInt8) (subscriber : Option ConnGeneration)
  deriving DecidableEq

/-- A thread of control of the runtime. -/
inductive Task where
  | op (op : Op)
  | conn (conn : Conn)
  | pump (pump : Pump)
  deriving DecidableEq

/-- What the environment returns to a step of any task; `chunk` is `none` at the end of the
PTY stream. -/
structure Input where
  choice : Choice := {}
  arrival : Arrival := {}
  chunk : Option (List UInt8) := none

/-- The next step of a pump: `on_output` for each chunk, then the end of the stream. -/
def Pump.step (sh : Shared) (chunk : Option (List UInt8)) : Pump → Option (Shared × Task)
  | .idle sid =>
    match chunk with
    | some bytes => some (sh, .pump (.write sid bytes))
    | none => some (sh, .op (.streamEnded sid))
  | .write sid bytes => some (sh.modify sid (·.writeBuffer bytes), .pump (.touch sid bytes))
  | .touch sid bytes => some (sh.modify sid (·.touch sh.now), .pump (.subscriber sid bytes))
  | .subscriber sid bytes =>
    sh.heap[sid]?.map fun s => (sh, .pump (.push sid bytes s.io.subscriber))
  | .push sid bytes current =>
    match current with
    | some conn =>
      some (sh.modify sid fun s => s.onOutbound conn (·.pushBytes bytes), .pump (.idle sid))
    | none => some (sh, .pump (.idle sid))

/-- The next step of a task. -/
def Task.step (env : Env) (sh : Shared) (t : Task) (c : Input) :
    Option (Shared × Task × List Task) :=
  match t with
  | .op o =>
    (o.step env sh c.choice).map fun r =>
      (r.1, .op r.2.1, r.2.2.1.map Task.op ++ r.2.2.2.map fun sid => .pump (.idle sid))
  | .conn o => (o.step env sh c.arrival).map fun r => (r.1, .conn r.2, [])
  | .pump o => (o.step sh c.chunk).map fun r => (r.1, r.2, [])

/-- The requests that reach the runtime. -/
def Task.entry : Task → Bool
  | .op o => o.entry
  | .conn o => o.entry
  | .pump _ => false

/-- The runtime: its environment only moves the clock, forwards. -/
def runtime (env : Env) : Threads Shared Task Input Duration where
  entry := Task.entry
  step := Task.step env
  env sh d := { sh with now := sh.now + d }

/-- A state of the running program. -/
abbrev World := Threads.State Shared Task

abbrev World.Label := Threads.Label Task Input Duration

/-- The program before its first request. -/
def World.init : World := { shared := Shared.init, tasks := [] }

/-- One step of the running program. -/
def World.next (env : Env) : World → World.Label → Option World := (runtime env).next

end OpenabPty
