import OpenabPty.KillDomain
import OpenabPty.Core.Trace
import Mathlib.Algebra.GroupWithZero.Nat
import Mathlib.Algebra.Order.BigOperators.Group.List
import Mathlib.Algebra.Order.Group.Nat

/-!
# The tracking budget (`killdomain.rs`)

Any number of kill domains share one count of tracked processes. A step is one access to the
shared count, together with what its domain does before the next one; a domain is borrowed for
the time of a call, so its own calls follow each other. The count is a `usize` and wraps.
-/

namespace OpenabPty

/-- Where a call of `track` is: in `reserve` before the load, at the `compare_exchange_weak` with
the value it expects, or with its slot reserved. -/
inductive TrackPc where
  | load
  | exchange (current : Nat)
  | push
  deriving DecidableEq, Repr

/-- A call of `track` in progress. -/
structure TrackCall where
  child : TrackedChild
  pc : TrackPc

/-- A kill domain among others, and the call it is borrowed for. -/
structure SharingDomain where
  domain : SessionKillDomain
  call : Option TrackCall
  dropped : Bool

/-- What a domain does next; `spurious` is a weak exchange that fails without a reason. -/
inductive DomainAction where
  | setLeader (pid : Pid) (pidfd : Option Nat)
  | track (pid : Pid) (pidfd : Option Nat)
  | step (spurious : Bool)
  | terminate
  | release
  | drop
  deriving DecidableEq, Repr

namespace SharingDomain

/-- Whether a call of `track` has reserved a slot that the domain does not track yet. -/
def reserved (d : SharingDomain) : Bool := d.call.map (·.pc) = some .push

/-- The slots of the shared count that a domain accounts for. -/
def slots (d : SharingDomain) : Nat := d.domain.tracked.length + d.reserved.toNat

/-- `track` up to its first access to the count. -/
def enter (global : GlobalTracking) (d : SharingDomain) (child : TrackedChild) :
    SharingDomain × Option (Except Error Unit) :=
  if global.limits.maxTrackedPerSession ≤ d.domain.tracked.length then
    (d, some (.error (.capacityExceeded global.limits.maxTrackedPerSession)))
  else ({ d with call := some { child, pc := .load } }, none)

/-- The loop of `reserve` with the value it has seen. -/
def seen (global : GlobalTracking) (d : SharingDomain) (call : TrackCall) (current : Nat) :
    SharingDomain × Option (Except Error Unit) :=
  if global.ceiling ≤ current then
    ({ d with call := none }, some (.error (.capacityExceeded global.ceiling)))
  else ({ d with call := some { call with pc := .exchange current } }, none)

/-- The next step of a call of `track`. -/
def trackStep (global : GlobalTracking) (d : SharingDomain) (call : TrackCall) (spurious : Bool) :
    GlobalTracking × SharingDomain × Option (Except Error Unit) :=
  match call.pc with
  | .load => (global, d.seen global call global.tracked)
  | .exchange current =>
    if global.tracked = current ∧ spurious = false then
      ({ global with tracked := current + 1 }, { d with call := some { call with pc := .push } },
        none)
    else (global, d.seen global call global.tracked)
  | .push =>
    let tracked := d.domain.tracked ++ [call.child]
    (global, { d with domain := { d.domain with tracked }, call := none }, some (.ok ()))

/-- `release`. -/
def release (global : GlobalTracking) (d : SharingDomain) : GlobalTracking × SharingDomain :=
  let released := d.domain.release global
  (released.2, { d with domain := released.1 })

/-- The next step of a domain, which is refused to a domain that is borrowed or dropped. -/
def act (global : GlobalTracking) (d : SharingDomain) (a : DomainAction) :
    Option (GlobalTracking × SharingDomain × Option (Except Error Unit)) :=
  match d.call with
  | some call =>
    match a with
    | .step spurious => some (d.trackStep global call spurious)
    | _ => none
  | none =>
    if d.dropped then none
    else
      match a with
      | .step _ => none
      | .setLeader pid pidfd =>
        let d := { d with domain := { d.domain with leaderPgid := some pid } }
        some (global, d.enter global { pid, pidfd })
      | .track pid pidfd => some (global, d.enter global { pid, pidfd })
      -- `terminate` reads the children and leaves the budget alone.
      | .terminate => some (global, d, none)
      | .release =>
        let released := d.release global
        some (released.1, released.2, none)
      | .drop =>
        if d.domain.tracked = [] then some (global, { d with dropped := true }, none)
        else
          let released := d.release global
          some (released.1, { released.2 with dropped := true }, none)

end SharingDomain

/-- What is measured of a call of `track`: the length of `tracked` when it began, and what its
steps so far have added to the shared count. -/
structure Meter where
  before : Nat
  added : Int

/-- The measure after a step of the domain `d`, which began a call if it was in none. -/
def Meter.next (m : Meter) (d : SharingDomain) (old new : Nat) : Meter :=
  let m := if d.call.isSome then m else { before := d.domain.tracked.length, added := 0 }
  { m with added := m.added + (new - old) }

/-- What a call of `track` returned, and what it did to the two counts. -/
structure TrackReturn where
  result : Except Error Unit
  before : Nat
  after : Nat
  added : Int

/-- The domains that share a count. What their calls of `track` do is measured for the
statements. -/
structure Budgets where
  global : GlobalTracking
  domains : List SharingDomain
  meters : Nat → Meter
  returns : List TrackReturn

namespace Budgets

inductive Label where
  | openSession
  | act (i : Nat) (a : DomainAction)
  deriving DecidableEq, Repr

/-- `KillDomain::with_signals`, before a session is opened. -/
def init (limits : TrackingLimits) (openFileLimit : Option Nat) : Budgets :=
  { global := .new limits openFileLimit, domains := []
    meters := fun _ => { before := 0, added := 0 }, returns := [] }

/-- The state after a step of the domain `i`. -/
def record (w : Budgets) (i : Nat) (d : SharingDomain)
    (r : GlobalTracking × SharingDomain × Option (Except Error Unit)) : Budgets :=
  let m := (w.meters i).next d w.global.tracked r.1.tracked
  let returned := r.2.2.map fun result =>
    { result, before := m.before, after := r.2.1.domain.tracked.length, added := m.added }
  { global := r.1, domains := w.domains.set i r.2.1, meters := Function.update w.meters i m
    returns := returned.toList ++ w.returns }

def next (w : Budgets) : Label → Option Budgets
  | .openSession =>
    match KillDomain.openSession with
    | .error _ => none
    | .ok domain =>
      some { w with domains := w.domains ++ [{ domain, call := none, dropped := false }] }
  | .act i a => do
    let d ← w.domains[i]?
    let r ← d.act w.global a
    some (w.record i d r)

/-- The slots that the domains account for. -/
def slots (w : Budgets) : Nat := (w.domains.map SharingDomain.slots).sum

end Budgets

/-! ## What one step of a domain does -/

/-- A call that failed has added nothing to either count; one that succeeded, one to both. -/
def TrackReturn.Clean (r : TrackReturn) : Prop :=
  match r.result with
  | .ok () => r.after = r.before + 1 ∧ r.added = 1
  | .error _ => r.after = r.before ∧ r.added = 0

theorem Meter.next_of_idle {d : SharingDomain} (h : d.call = none) (m : Meter) (old new : Nat) :
    m.next d old new = { before := d.domain.tracked.length, added := new - old } := by
  simp [Meter.next, h]

theorem Meter.next_of_call {d : SharingDomain} {call : TrackCall} (h : d.call = some call)
    (m : Meter) (old new : Nat) :
    m.next d old new = { m with added := m.added + (new - old) } := by
  simp [Meter.next, h]

namespace SharingDomain

/-- A call of `track` on a domain: it only tries the exchange below the ceiling, and has added to
the count exactly when its slot is reserved. -/
structure CallOk (limits : TrackingLimits) (ceiling : Nat) (d : SharingDomain) (m : Meter)
    (call : TrackCall) : Prop where
  room : d.domain.tracked.length < limits.maxTrackedPerSession
  below : ∀ current, call.pc = .exchange current → current < ceiling
  before : m.before = d.domain.tracked.length
  added : m.added = if call.pc = .push then 1 else 0

/-- What holds of a domain between two steps. -/
structure Ok (limits : TrackingLimits) (ceiling : Nat) (d : SharingDomain) (m : Meter) : Prop where
  cap : d.domain.tracked.length ≤ limits.maxTrackedPerSession
  call : ∀ call, d.call = some call → d.CallOk limits ceiling m call

/-- What one step of a domain does to the count: the domain accounts for the difference. -/
structure Settles (global : GlobalTracking) (d : SharingDomain) (m : Meter)
    (r : GlobalTracking × SharingDomain × Option (Except Error Unit)) : Prop where
  limits : r.1.limits = global.limits
  fdBudget : r.1.fdBudget = global.fdBudget
  ok : r.2.1.Ok global.limits global.ceiling (m.next d global.tracked r.1.tracked)
  balance : r.1.tracked + d.slots = global.tracked + r.2.1.slots
  ceiling : r.1.tracked ≤ global.ceiling
  returned : ∀ result ∈ r.2.2, TrackReturn.Clean
    { result, before := (m.next d global.tracked r.1.tracked).before
      after := r.2.1.domain.tracked.length
      added := (m.next d global.tracked r.1.tracked).added }

variable {global : GlobalTracking} {d : SharingDomain} {m : Meter} {call : TrackCall}

theorem Ok.of_idle {limits : TrackingLimits} {ceiling : Nat} (h : d.call = none)
    (hcap : d.domain.tracked.length ≤ limits.maxTrackedPerSession) : d.Ok limits ceiling m :=
  ⟨hcap, fun call hcall => by simp [h] at hcall⟩

theorem slots_of_idle (h : d.call = none) : d.slots = d.domain.tracked.length := by
  simp [slots, reserved, h]

theorem slots_of_call (h : d.call = some call) :
    d.slots = d.domain.tracked.length + if call.pc = .push then 1 else 0 := by
  by_cases hpush : call.pc = .push <;> simp [slots, reserved, h, hpush]

theorem settles_enter (hcap : d.domain.tracked.length ≤ global.limits.maxTrackedPerSession)
    (hidle : d.call = none) (hceiling : global.tracked ≤ global.ceiling) (child : TrackedChild) :
    d.Settles global m (global, d.enter global child) := by
  have hm := Meter.next_of_idle hidle m global.tracked global.tracked
  unfold enter
  by_cases hfull : global.limits.maxTrackedPerSession ≤ d.domain.tracked.length
  · simp only [hfull, if_true]
    refine ⟨rfl, rfl, .of_idle hidle hcap, rfl, hceiling, ?_⟩
    simp [TrackReturn.Clean, hm]
  · simp only [hfull, if_false]
    refine ⟨rfl, rfl, ⟨hcap, ?_⟩, ?_, hceiling, by simp⟩
    · intro call hcall
      obtain rfl := Option.some.inj hcall
      exact ⟨by simpa using hfull, by simp, by simp [hm], by simp [hm]⟩
    · rw [slots_of_idle hidle, slots_of_call rfl]
      simp

theorem settles_seen (hok : d.Ok global.limits global.ceiling m) (hcall : d.call = some call)
    (hceiling : global.tracked ≤ global.ceiling) (hpc : call.pc ≠ .push) (current : Nat) :
    d.Settles global m (global, d.seen global call current) := by
  have hc := hok.call call hcall
  have hadded : m.added = 0 := by rw [hc.added, if_neg hpc]
  have hm := Meter.next_of_call hcall m global.tracked global.tracked
  have hslots : d.slots = d.domain.tracked.length := by rw [slots_of_call hcall, if_neg hpc]; rfl
  unfold seen
  by_cases hfull : global.ceiling ≤ current
  · simp only [hfull, if_true]
    refine ⟨rfl, rfl, .of_idle rfl hok.cap, ?_, hceiling, ?_⟩
    · rw [hslots, slots_of_idle rfl]
    · simp [TrackReturn.Clean, hm, hc.before, hadded]
  · simp only [hfull, if_false]
    refine ⟨rfl, rfl, ⟨hok.cap, ?_⟩, ?_, hceiling, by simp⟩
    · intro call' hcall'
      obtain rfl := Option.some.inj hcall'
      refine ⟨hc.room, ?_, by simp [hm, hc.before], by simp [hm, hadded]⟩
      intro current' hcurrent
      obtain rfl := TrackPc.exchange.inj hcurrent
      exact Nat.lt_of_not_le hfull
    · rw [hslots, slots_of_call rfl]
      simp

theorem settles_trackStep (hok : d.Ok global.limits global.ceiling m) (hcall : d.call = some call)
    (hceiling : global.tracked ≤ global.ceiling) (spurious : Bool) :
    d.Settles global m (d.trackStep global call spurious) := by
  have hc := hok.call call hcall
  unfold trackStep
  cases hpc : call.pc with
  | load => exact settles_seen hok hcall hceiling (by simp [hpc]) _
  | exchange current =>
    by_cases hswap : global.tracked = current ∧ spurious = false
    · obtain ⟨rfl, rfl⟩ := hswap
      have hadded : m.added = 0 := by simp [hc.added, hpc]
      have hm := Meter.next_of_call hcall m global.tracked (global.tracked + 1)
      simp only [and_self, if_true]
      refine ⟨rfl, rfl, ⟨hok.cap, ?_⟩, ?_, hc.below _ hpc, by simp⟩
      · intro call' hcall'
        obtain rfl := Option.some.inj hcall'
        exact ⟨hc.room, by simp, by simp [hm, hc.before], by simp [hm, hadded]⟩
      · rw [slots_of_call hcall, slots_of_call rfl, hpc, if_neg (by simp), if_pos rfl]
        simp only
        omega
    · simp only [hswap, if_false]
      exact settles_seen hok hcall hceiling (by simp [hpc]) _
  | push =>
    have hadded : m.added = 1 := by simp [hc.added, hpc]
    have hm := Meter.next_of_call hcall m global.tracked global.tracked
    refine ⟨rfl, rfl, .of_idle rfl ?_, ?_, hceiling, ?_⟩
    · simpa using Nat.succ_le_of_lt hc.room
    · rw [slots_of_call hcall, slots_of_idle rfl, if_pos hpc]
      simp
    · simp [TrackReturn.Clean, hm, hc.before, hadded]

theorem settles_release (hidle : d.call = none) (hceiling : global.tracked ≤ global.ceiling)
    (hslots : d.slots ≤ global.tracked) (dropped : Bool) :
    d.Settles global m ((d.release global).1, { (d.release global).2 with dropped := dropped },
      none) := by
  rw [slots_of_idle hidle] at hslots
  have hsub := fetchSub_of_le hslots
  refine ⟨rfl, rfl, .of_idle hidle (Nat.zero_le _), ?_, ?_, by simp⟩
  · have hnone : ({ (d.release global).2 with dropped := dropped } : SharingDomain).slots = 0 :=
      slots_of_idle hidle
    rw [slots_of_idle hidle, hnone]
    simp only [release, SessionKillDomain.release, GlobalTracking.release, hsub]
    omega
  · simp only [release, SessionKillDomain.release, GlobalTracking.release, hsub]
    omega

/-- The step lemma of a domain. -/
theorem settles_act (hok : d.Ok global.limits global.ceiling m)
    (hceiling : global.tracked ≤ global.ceiling) (hslots : d.slots ≤ global.tracked)
    {a : DomainAction} {r : GlobalTracking × SharingDomain × Option (Except Error Unit)}
    (h : d.act global a = some r) : d.Settles global m r := by
  unfold act at h
  split at h
  · rename_i call hcall
    split at h
    · obtain rfl := Option.some.inj h
      exact settles_trackStep hok hcall hceiling _
    · cases h
  · rename_i hidle
    rw [Option.ite_none_left_eq_some] at h
    obtain ⟨-, h⟩ := h
    cases a with
    | step spurious => cases h
    | setLeader pid pidfd =>
      obtain rfl := Option.some.inj h
      have hsettles := settles_enter (m := m)
        (d := { d with domain := { d.domain with leaderPgid := some pid } }) hok.cap hidle hceiling
        { pid, pidfd }
      exact { hsettles with }
    | track pid pidfd =>
      obtain rfl := Option.some.inj h
      exact settles_enter hok.cap hidle hceiling _
    | terminate =>
      obtain rfl := Option.some.inj h
      exact ⟨rfl, rfl, .of_idle hidle hok.cap, rfl, hceiling, by simp⟩
    | release =>
      obtain rfl := Option.some.inj h
      exact settles_release hidle hceiling hslots d.dropped
    | drop =>
      dsimp only at h
      split_ifs at h
      · obtain rfl := Option.some.inj h
        exact ⟨rfl, rfl, .of_idle hidle hok.cap, rfl, hceiling, by simp⟩
      · obtain rfl := Option.some.inj h
        exact settles_release hidle hceiling hslots true

/-- A domain that is in no call and tracks nothing. -/
def Idle (d : SharingDomain) : Prop := d.domain.tracked = [] ∧ d.call = none

/-- A released or dropped domain tracks nothing. -/
theorem idle_of_givesBack {a : DomainAction}
    {r : GlobalTracking × SharingDomain × Option (Except Error Unit)}
    (ha : a = .release ∨ a = .drop) (h : d.act global a = some r) : r.2.1.Idle := by
  unfold act at h
  split at h
  · rcases ha with rfl | rfl <;> cases h
  · rename_i hidle
    rw [Option.ite_none_left_eq_some] at h
    obtain ⟨-, h⟩ := h
    rcases ha with rfl | rfl
    · obtain rfl := Option.some.inj h
      exact ⟨rfl, hidle⟩
    · dsimp only at h
      split_ifs at h with hempty
      · obtain rfl := Option.some.inj h
        exact ⟨hempty, hidle⟩
      · obtain rfl := Option.some.inj h
        exact ⟨rfl, hidle⟩

/-- What `terminate` does to a domain is nothing. -/
theorem act_terminate {r : GlobalTracking × SharingDomain × Option (Except Error Unit)}
    (h : d.act global .terminate = some r) : r.2.1 = d := by
  unfold act at h
  split at h
  · cases h
  · rw [Option.ite_none_left_eq_some] at h
    obtain rfl := Option.some.inj h.2
    rfl

end SharingDomain

/-! ## Runs -/

/-- Replacing one entry of a list replaces its summand. -/
theorem sum_map_set {α : Type} (f : α → Nat) {l : List α} {i : Nat} {a : α} (b : α)
    (h : l[i]? = some a) : ((l.set i b).map f).sum + f a = (l.map f).sum + f b := by
  induction l generalizing i with
  | nil => simp at h
  | cons c l ih =>
    cases i with
    | zero =>
      obtain rfl := Option.some.inj h
      simp only [List.set_cons_zero, List.map_cons, List.sum_cons]
      omega
    | succ i =>
      have hrest := ih (by simpa using h)
      simp only [List.set_cons_succ, List.map_cons, List.sum_cons]
      omega

namespace Budgets

/-- The invariant: the count is what the domains account for. -/
structure Balanced (global₀ : GlobalTracking) (w : Budgets) : Prop where
  limits : w.global.limits = global₀.limits
  fdBudget : w.global.fdBudget = global₀.fdBudget
  total : w.global.tracked = w.slots
  ceiling : w.global.tracked ≤ global₀.ceiling
  domains : ∀ i (d : SharingDomain), w.domains[i]? = some d →
    d.Ok global₀.limits global₀.ceiling (w.meters i)
  returns : ∀ r ∈ w.returns, r.Clean

variable {global₀ : GlobalTracking} {w w' : Budgets}

theorem Balanced.ceiling_eq (h : w.Balanced global₀) : w.global.ceiling = global₀.ceiling := by
  rw [GlobalTracking.ceiling, h.limits, h.fdBudget, GlobalTracking.ceiling]

theorem Balanced.slots_le (h : w.Balanced global₀) {d : SharingDomain} (hd : d ∈ w.domains) :
    d.slots ≤ w.global.tracked := by
  rw [h.total]
  exact List.single_le_sum (by simp) _ (List.mem_map_of_mem hd)

theorem balanced_init (limits : TrackingLimits) (openFileLimit : Option Nat) :
    (init limits openFileLimit).Balanced (.new limits openFileLimit) :=
  ⟨rfl, rfl, rfl, Nat.zero_le _, by simp [init], by simp [init]⟩

theorem balanced_next {l : Label} (hb : w.Balanced global₀) (h : w.next l = some w') :
    w'.Balanced global₀ := by
  cases l with
  | openSession =>
    obtain rfl := Option.some.inj h
    refine ⟨hb.limits, hb.fdBudget, ?_, hb.ceiling, ?_, hb.returns⟩
    · simp [slots, SharingDomain.slots_of_idle, hb.total]
    · intro i d hd
      rw [List.getElem?_append] at hd
      split at hd
      · exact hb.domains i d hd
      · obtain rfl := List.mem_singleton.mp (List.mem_of_getElem? hd)
        exact .of_idle rfl (Nat.zero_le _)
  | act i a =>
    obtain ⟨d, hd, h⟩ := Option.bind_eq_some_iff.mp h
    obtain ⟨r, hr, h⟩ := Option.bind_eq_some_iff.mp h
    obtain rfl := Option.some.inj h
    have hok := hb.domains i d hd
    rw [← hb.limits, ← hb.ceiling_eq] at hok
    have hceiling := hb.ceiling
    rw [← hb.ceiling_eq] at hceiling
    have hs := SharingDomain.settles_act hok hceiling (hb.slots_le (List.mem_of_getElem? hd)) hr
    have hsum := sum_map_set SharingDomain.slots r.2.1 hd
    have htotal := hb.total
    have hbalance := hs.balance
    refine ⟨hs.limits.trans hb.limits, hs.fdBudget.trans hb.fdBudget, ?_, ?_, ?_, ?_⟩
    · simp only [record, slots] at htotal ⊢
      omega
    · exact hb.ceiling_eq ▸ hs.ceiling
    · intro j d' hd'
      simp only [record] at hd' ⊢
      by_cases hj : j = i
      · subst hj
        obtain ⟨hlt, -⟩ := List.getElem?_eq_some_iff.mp hd
        rw [List.getElem?_set_self hlt] at hd'
        obtain rfl := Option.some.inj hd'
        rw [Function.update_self]
        exact hb.limits ▸ hb.ceiling_eq ▸ hs.ok
      · rw [List.getElem?_set_ne (Ne.symm hj)] at hd'
        rw [Function.update_of_ne hj]
        exact hb.domains j d' hd'
    · intro ret hret
      rcases List.mem_append.mp hret with hnew | hold
      · obtain ⟨result, hresult, rfl⟩ := Option.map_eq_some_iff.mp (Option.mem_toList.mp hnew)
        exact hs.returned result hresult
      · exact hb.returns ret hold

/-- What the shared budget promises in a state: the count is the processes that the domains track
and the slots that calls in progress have reserved, within both limits; a release takes no more
from it than there is; a call that failed changed neither count, and one that succeeded added one
to both. -/
structure Conserved (global₀ : GlobalTracking) (w : Budgets) : Prop where
  total : w.global.tracked = (w.domains.map fun d => d.domain.tracked.length).sum +
    w.domains.countP SharingDomain.reserved
  ceiling : w.global.tracked ≤ min global₀.limits.maxTrackedGlobal global₀.fdBudget
  noUnderflow : ∀ d ∈ w.domains, d.domain.tracked.length ≤ w.global.tracked
  cap : ∀ d ∈ w.domains, d.domain.tracked.length ≤ global₀.limits.maxTrackedPerSession
  refused : ∀ r ∈ w.returns, ∀ e, r.result = .error e → r.after = r.before ∧ r.added = 0
  accepted : ∀ r ∈ w.returns, r.result = .ok () → r.after = r.before + 1 ∧ r.added = 1

theorem Balanced.conserved (h : w.Balanced global₀) : w.Conserved global₀ where
  total := by
    rw [h.total, slots]
    induction w.domains with
    | nil => rfl
    | cons d ds ih =>
      simp only [List.map_cons, List.sum_cons, ih, SharingDomain.slots]
      cases hd : d.reserved <;> simp [hd] <;> omega
  ceiling := h.ceiling
  noUnderflow d hd := Nat.le_trans (Nat.le_add_right _ _) (h.slots_le hd)
  cap d hd := by
    obtain ⟨i, hi⟩ := List.getElem?_of_mem hd
    exact (h.domains i d hi).cap
  refused r hr e he := by
    have hclean := h.returns r hr
    rwa [TrackReturn.Clean, he] at hclean
  accepted r hr hok := by
    have hclean := h.returns r hr
    rwa [TrackReturn.Clean, hok] at hclean

/-- In a run, the domain `i` is released or dropped, and tracks nothing after that. -/
def GivenBack (ls : List Label) (i : Nat) : Prop :=
  ∃ before a after, ls = before ++ .act i a :: after ∧ (a = .release ∨ a = .drop) ∧
    ∀ b, .act i b ∈ after → b = .terminate ∨ b = .release ∨ b = .drop

/-- A domain that tracks nothing stays so in a step in which it is not asked to track something. -/
theorem idle_next {i : Nat} {d : SharingDomain} {l : Label} (hd : w.domains[i]? = some d)
    (hidle : d.Idle) (hl : ∀ b, l = .act i b → b = .terminate ∨ b = .release ∨ b = .drop)
    (h : w.next l = some w') : ∃ d', w'.domains[i]? = some d' ∧ d'.Idle := by
  cases l with
  | openSession =>
    obtain rfl := Option.some.inj h
    exact ⟨d, by rw [List.getElem?_append_left (List.getElem?_eq_some_iff.mp hd).1, hd], hidle⟩
  | act j a =>
    obtain ⟨dj, hdj, h⟩ := Option.bind_eq_some_iff.mp h
    obtain ⟨r, hr, h⟩ := Option.bind_eq_some_iff.mp h
    obtain rfl := Option.some.inj h
    by_cases hj : j = i
    · subst hj
      obtain rfl := Option.some.inj (hd.symm.trans hdj)
      refine ⟨r.2.1, List.getElem?_set_self (List.getElem?_eq_some_iff.mp hd).1, ?_⟩
      rcases hl a rfl with rfl | hback
      · exact SharingDomain.act_terminate hr ▸ hidle
      · exact SharingDomain.idle_of_givesBack hback hr
    · exact ⟨d, (List.getElem?_set_ne hj).trans hd, hidle⟩

theorem idle_run {i : Nat} : ∀ {ls : List Label} {w : Budgets} {d : SharingDomain},
    w.domains[i]? = some d → d.Idle →
    (∀ b, .act i b ∈ ls → b = .terminate ∨ b = .release ∨ b = .drop) →
    Trace.run next w ls = some w' → ∃ d', w'.domains[i]? = some d' ∧ d'.Idle
  | [], w, d, hd, hidle, _, h => by
    obtain rfl := Option.some.inj h
    exact ⟨d, hd, hidle⟩
  | l :: ls, w, d, hd, hidle, hls, h => by
    obtain ⟨w₁, hl, h⟩ := Option.bind_eq_some_iff.mp h
    obtain ⟨d₁, hd₁, hidle₁⟩ := idle_next hd hidle
      (fun b hb => hls b (hb ▸ List.mem_cons_self)) hl
    exact idle_run hd₁ hidle₁ (fun b hb => hls b (List.mem_cons_of_mem l hb)) h

/-- A domain that was given back tracks nothing in the end. -/
theorem GivenBack.idle {i : Nat} {ls : List Label} (hback : GivenBack ls i)
    (h : Trace.run next w ls = some w') : ∃ d, w'.domains[i]? = some d ∧ d.Idle := by
  obtain ⟨before, a, after, rfl, ha, hafter⟩ := hback
  rw [Trace.run_append] at h
  obtain ⟨w₁, -, h⟩ := Option.bind_eq_some_iff.mp h
  obtain ⟨w₂, hnext, h⟩ := Option.bind_eq_some_iff.mp h
  obtain ⟨d, hd, hnext⟩ := Option.bind_eq_some_iff.mp hnext
  obtain ⟨r, hr, hnext⟩ := Option.bind_eq_some_iff.mp hnext
  obtain rfl := Option.some.inj hnext
  exact idle_run (List.getElem?_set_self (List.getElem?_eq_some_iff.mp hd).1)
    (SharingDomain.idle_of_givesBack ha hr) hafter h

/-- **The budget is conserved** along every run of any number of domains, and nothing is left of it
in use at the end of a run that gives every domain back. -/
theorem budget_conserved (limits : TrackingLimits) (openFileLimit : Option Nat)
    (ls : List Label) :
    Trace.AllStates next (Conserved (.new limits openFileLimit)) (init limits openFileLimit) ls ∧
      ∀ w, Trace.run next (init limits openFileLimit) ls = some w →
        (∀ i < w.domains.length, GivenBack ls i) → w.global.tracked = 0 := by
  have hbalanced : Trace.AllStates next (Balanced (.new limits openFileLimit))
      (init limits openFileLimit) ls :=
    Trace.AllStates.of_next (fun _ _ _ => balanced_next) (balanced_init limits openFileLimit)
  refine ⟨hbalanced.imp fun _ => Balanced.conserved, fun w hrun hback => ?_⟩
  rw [(hbalanced.last hrun).total, slots, List.sum_eq_zero_iff_forall_eq_nat]
  intro n hn
  obtain ⟨d, hd, rfl⟩ := List.mem_map.mp hn
  obtain ⟨i, hi⟩ := List.getElem?_of_mem hd
  obtain ⟨d', hd', hempty, hidle⟩ := (hback i (List.getElem?_eq_some_iff.mp hi).1).idle hrun
  obtain rfl := Option.some.inj (hi.symm.trans hd')
  rw [SharingDomain.slots_of_idle hidle, hempty, List.length_nil]

/-- Two sessions with one slot between them: the second one is refused until the first is dropped,
and then has its slot until it is released. -/
def contended : List Label :=
  [.openSession, .openSession, .act 0 (.setLeader 10 none), .act 1 (.setLeader 11 none),
    .act 0 (.step false), .act 1 (.step false), .act 1 (.step true), .act 0 (.step false),
    .act 1 (.step false), .act 0 (.step false), .act 0 .terminate, .act 0 .drop,
    .act 1 (.track 11 none), .act 1 (.step false), .act 1 (.step false), .act 1 (.step false),
    .act 1 .release]

theorem budget_conserved_contended :
    (Trace.run next (init { TrackingLimits.default with maxTrackedGlobal := 1 } none)
        contended).map (·.domains.length) = some 2 ∧
      ∀ w, Trace.run next (init { TrackingLimits.default with maxTrackedGlobal := 1 } none)
        contended = some w → w.global.tracked = 0 := by
  have hlen : (Trace.run next (init { TrackingLimits.default with maxTrackedGlobal := 1 } none)
      contended).map (·.domains.length) = some 2 := rfl
  refine ⟨hlen, fun w hrun => ?_⟩
  refine (budget_conserved _ none contended).2 w hrun fun i hi => ?_
  rw [hrun] at hlen
  obtain rfl | rfl : i = 0 ∨ i = 1 := by
    have htwo : w.domains.length = 2 := Option.some.inj hlen
    omega
  · exact ⟨contended.take 11, .drop, contended.drop 12, rfl, .inr rfl, by simp [contended]⟩
  · exact ⟨contended.take 16, .release, contended.drop 17, rfl, .inl rfl, by simp [contended]⟩

/-! ## Calls that nobody interrupts -/

section Alone

variable {d : SharingDomain} {i : Nat}

/-- Without an interruption, a call of `track` ends as the function of one domain does. -/
theorem track_alone (hd : w.domains[i]? = some d) (hidle : d.call = none)
    (hdropped : d.dropped = false) (pid : Pid) (pidfd : Option Nat) :
    ∃ n w' ret, Trace.run next w
        (.act i (.track pid pidfd) :: List.replicate n (.act i (.step false))) = some w' ∧
      w'.domains = w.domains.set i { d with domain := (d.domain.track w.global pid pidfd).1 } ∧
      w'.global = (d.domain.track w.global pid pidfd).2.1 ∧
      w'.returns = ret :: w.returns ∧ ret.result = (d.domain.track w.global pid pidfd).2.2 := by
  obtain ⟨hlt, hget⟩ := List.getElem?_eq_some_iff.mp hd
  obtain ⟨domain, call, dropped⟩ := d
  obtain rfl : call = none := hidle
  obtain rfl : dropped = false := hdropped
  unfold SessionKillDomain.track
  by_cases hfull : w.global.limits.maxTrackedPerSession ≤ domain.tracked.length
  · -- No room in the session.
    refine ⟨0, ?_⟩
    simp [Trace.run, next, record, hlt, hget, SharingDomain.act, SharingDomain.enter, hfull]
  · by_cases hceiling : w.global.ceiling ≤ w.global.tracked
    · -- The load sees a full count.
      refine ⟨1, ?_⟩
      simp [Trace.run, next, record, hlt, hget, SharingDomain.act, SharingDomain.enter,
        SharingDomain.trackStep, SharingDomain.seen, hfull, hceiling, GlobalTracking.reserve]
    · refine ⟨3, ?_⟩
      simp [Trace.run, next, record, hlt, hget, SharingDomain.act, SharingDomain.enter,
        SharingDomain.trackStep, SharingDomain.seen, hfull, hceiling, GlobalTracking.reserve]

end Alone

end Budgets

end OpenabPty
