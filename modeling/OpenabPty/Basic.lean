import Mathlib.Algebra.Group.Nat.Defs
import Mathlib.Data.List.Basic
import Std.Data.TreeMap.Lemmas
import Std.Data.TreeSet.Lemmas

/-!
# Names, fences, clocks and errors

The vocabulary of `lib.rs` that the other modules share. Instants are nanoseconds since the
manager's epoch and durations nanoseconds; the `u64` and `u32` counters of the source that
only ever count steps of the program (generations, connection generations, missed pings) are
natural numbers.
-/

namespace OpenabPty

/-- A point on the monotonic clock, in nanoseconds since the manager's epoch. -/
abbrev Instant := Nat

/-- A length of time, in nanoseconds. -/
abbrev Duration := Nat

/-- `Duration::from_secs`. -/
def Duration.fromSecs (n : Nat) : Duration := n * 1000000000

/-- `Duration::from_millis`. -/
def Duration.fromMillis (n : Nat) : Duration := n * 1000000

/-- `Duration::as_millis`. -/
def Duration.asMillis (d : Duration) : Nat := d / 1000000

/-- `Duration::as_secs`. -/
def Duration.asSecs (d : Duration) : Nat := d / 1000000000

/-- The largest `u64`. -/
def u64Max : Nat := 2 ^ 64 - 1

/-- A subtraction that underflows on its own terms. -/
def checkedSub (a b : Nat) : Option Nat := if b ≤ a then some (a - b) else none

theorem checkedSub_eq {a b : Nat} (h : b ≤ a) : checkedSub a b = some (a - b) := if_pos h

/-- `u64::saturating_add`. -/
def satAdd (a b : Nat) : Nat := min (a + b) u64Max

/-- The check of `SessionName::parse`: `[a-z0-9-]{1,32}` over the UTF-8 bytes. -/
def validName (s : List UInt8) : Bool :=
  !s.isEmpty && s.length ≤ 32 &&
    s.all fun b => (97 ≤ b && b ≤ 122) || (48 ≤ b && b ≤ 57) || b == 45

/-- A validated session name. -/
structure SessionName where
  bytes : List UInt8
  valid : validName bytes = true
  deriving DecidableEq

/-- `SessionName: Ord`, the order of the manager's `BTreeMap`. -/
instance : Ord SessionName := ⟨fun a b => compare a.bytes b.bytes⟩

instance : Std.TransOrd SessionName where
  eq_swap {_ _} := Std.OrientedOrd.eq_swap (α := List UInt8)
  isLE_trans {_ _ _} := Std.TransOrd.isLE_trans (α := List UInt8)

instance : Std.LawfulEqOrd SessionName where
  compare_self {_} := Std.ReflOrd.compare_self (α := List UInt8)
  eq_of_compare {a b} h := by
    have h : a.bytes = b.bytes := Std.LawfulEqOrd.eq_of_compare (α := List UInt8) h
    cases a
    cases b
    simpa using h

/-- `Generation`: the per-name fence that a renew or a restart moves on. -/
structure Generation where
  val : Nat
  deriving DecidableEq, Repr

instance : LE Generation := ⟨fun a b => a.val ≤ b.val⟩
instance : LT Generation := ⟨fun a b => a.val < b.val⟩
instance (a b : Generation) : Decidable (a ≤ b) := inferInstanceAs (Decidable (a.val ≤ b.val))
instance (a b : Generation) : Decidable (a < b) := inferInstanceAs (Decidable (a.val < b.val))

/-- `Generation(g.0 + 1)`. -/
def Generation.succ (g : Generation) : Generation := ⟨g.val + 1⟩

@[simp] theorem Generation.succ_val (g : Generation) : g.succ.val = g.val + 1 := rfl

/-- `ConnGeneration`: the identity of one connection within a session; 0 is "nobody". -/
structure ConnGeneration where
  val : Nat
  deriving DecidableEq, Repr

/-! ### Close codes -/

namespace CloseCode

def ttlExpired : Nat := 4001
def takeover : Nat := 4002
def renewed : Nat := 4003
def sessionEnded : Nat := 4004
def slowClient : Nat := 4005
def runtimeReplaced : Nat := 4006
def capacity : Nat := 4007
def adminKill : Nat := 4008
def internalError : Nat := 4009
def toolsRevoked : Nat := 4010
def livenessTimeout : Nat := 4011

end CloseCode

/-- `Error`. -/
inductive Error where
  | invalidSessionName (s : List UInt8)
  | notFound (name : SessionName)
  | alreadyExists (name : SessionName)
  | capacityExceeded (limit : Nat)
  | unauthorized
  | sessionDead (name : SessionName)
  | config (message : String)
  | other (message : String)
  deriving DecidableEq

/-- `SessionName::parse`. -/
def SessionName.parse (s : List UInt8) : Except Error SessionName :=
  if h : validName s = true then .ok ⟨s, h⟩ else .error (.invalidSessionName s)

/-- `WindowSize`. -/
structure WindowSize where
  rows : Nat
  cols : Nat
  deriving DecidableEq, Repr

/-- `WindowSize::default`. -/
def WindowSize.default : WindowSize := { rows := 24, cols := 80 }

/-- `TerminationClass`, as far as the session manager uses it. -/
inductive TerminationClass where
  | adminKill
  | selfExit
  | ttlExpired
  | runtimeShutdown
  deriving DecidableEq, Repr

end OpenabPty
