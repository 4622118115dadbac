import OpenabPty.KillDomain
import OpenabPty.Core.Trace

/-!
# Whom a kill domain signals

One `SessionKillDomain` among the moves of the processes: `terminate` runs in single system calls,
and between them processes start, change their group, exit and are reaped, by the runtime or by
others. The domain remembers numbers. A number names a process or a group of its own as long as
the process or a member of the group is not reaped; `release` forgets the children but not the
number of the group, which a second `terminate` signals again.
-/

namespace OpenabPty

/-- Where `terminate_tier1` is. -/
inductive TerminatePc where
  | group (signal : Signal)
  | tracked (signal : Signal) (rest : List TrackedChild)
  -- `wait_until_drained`
  | reap (signal : Signal) (rest : List TrackedChild)
  | probe (signal : Signal) (rest : List TrackedChild)
  | alive (signal : Signal)
  | finalReap (rest : List TrackedChild)

/-- One kill domain and the processes. `leaders` and `children` are the processes that had the pids
given to `set_leader` and to `track`. -/
structure KillRun where
  kernel : Kernel
  domain : SessionKillDomain
  global : GlobalTracking
  pc : Option TerminatePc
  leaders : List Nat
  children : List Nat

namespace KillRun

def init (limits : TrackingLimits) (openFileLimit : Option Nat) : KillRun :=
  { kernel := .init, domain := { leaderPgid := none, tracked := [] },
    global := .new limits openFileLimit, pc := none, leaders := [], children := [] }

inductive Label where
  -- the processes
  | fork (pid : Pid) (group : Option Nat) (ours : Bool)
  | setGroup (i group : Nat)
  | exit (i : Nat)
  | reap (i : Nat)
  -- the other sessions
  | elsewhere (tracked : Nat)
  -- the domain
  | setLeader (pid : Pid) (opened : Bool)
  | track (pid : Pid) (opened : Bool)
  | terminate
  | step (timeUp : Bool)
  | release

/-- Change one process. -/
def modify (w : KillRun) (i : Nat) (f : Process → Process) : KillRun :=
  { w with kernel := { w.kernel with processes := w.kernel.processes.modify i f } }

/-- A group that a process may join: it has a member. -/
def joinable (k : Kernel) (group : Nat) : Bool :=
  k.processes.any fun q => !q.reaped && q.group == group

/-- What a call of `track` or `set_leader` returned. -/
def tracking (w : KillRun) (holder : Option Nat)
    (result : SessionKillDomain × GlobalTracking × Except Error Unit) : KillRun :=
  { w with
    domain := result.1
    global := result.2.1
    children := match result.2.2 with
      | .ok () => w.children ++ holder.toList
      | .error _ => w.children }

/-- The next system call of `terminate_tier1`. -/
def terminateStep (w : KillRun) (timeUp : Bool) : TerminatePc → KillRun
  | .group signal =>
    { w with kernel := w.domain.signalLeader w.kernel signal
             pc := some (.tracked signal w.domain.tracked) }
  | .tracked signal (child :: rest) =>
    { w with kernel := SessionKillDomain.signalChild w.kernel child signal
             pc := some (.tracked signal rest) }
  | .tracked signal [] => { w with pc := some (.reap signal w.domain.tracked) }
  | .reap signal (child :: rest) =>
    { w with kernel := w.kernel.reapNonblocking child.pid, pc := some (.reap signal rest) }
  | .reap signal [] => { w with pc := some (.probe signal w.domain.tracked) }
  | .probe signal (child :: rest) =>
    { w with pc := some (if w.kernel.pidAlive child.pid then .alive signal else .probe signal rest) }
  | .probe signal [] =>
    { w with pc := some (if w.domain.leaderPgid.any w.kernel.groupAlive then .alive signal
      else .finalReap w.domain.tracked) }
  | .alive signal =>
    -- Before the deadline it sleeps and looks again.
    { w with pc := some (if timeUp then
        match signal with
        | .term => .group .kill
        | .kill => .finalReap w.domain.tracked
      else .reap signal w.domain.tracked) }
  | .finalReap (child :: rest) =>
    { w with kernel := w.kernel.reapNonblocking child.pid, pc := some (.finalReap rest) }
  | .finalReap [] => { w with pc := none }

/-- The next move of a process, or the next step of a call on the domain. The calls are
serialised by the lock of the session. -/
def next (w : KillRun) : Label → Option KillRun
  | .fork pid group ours =>
    if w.kernel.free pid && group.all (joinable w.kernel) then
      some { w with kernel := w.kernel.fork pid group ours }
    else none
  | .setGroup i group =>
    if (w.kernel.processes[i]?.any fun q => !q.exited) && (group == i || joinable w.kernel group) then
      some (w.modify i fun q => { q with group })
    else none
  | .exit i => some (w.modify i fun q => { q with exited := true })
  | .reap i => some (w.modify i fun q => if q.exited then { q with reaped := true } else q)
  | .elsewhere tracked => some { w with global := { w.global with tracked } }
  | .setLeader pid opened =>
    if w.pc.isNone then
      let holder := w.kernel.holder pid
      some { w.tracking holder
          (w.domain.setLeader w.global pid (if opened then holder else none)) with
        leaders := w.leaders ++ holder.toList }
    else none
  | .track pid opened =>
    if w.pc.isNone then
      let holder := w.kernel.holder pid
      some (w.tracking holder (w.domain.track w.global pid (if opened then holder else none)))
    else none
  | .terminate => if w.pc.isNone then some { w with pc := some (.group .term) } else none
  | .step timeUp => w.pc.map (w.terminateStep timeUp)
  | .release =>
    if w.pc.isNone then
      let released := w.domain.release w.global
      some { w with domain := released.1, global := released.2 }
    else none

/-- The leader, a member of its group, or a tracked child. -/
def Own (w : KillRun) (i group : Nat) : Prop :=
  i ∈ w.leaders ∨ group ∈ w.leaders ∨ i ∈ w.children

/-- Nobody else received a signal of the domain. -/
def Spared (w : KillRun) : Prop := ∀ d ∈ w.kernel.delivered, w.Own d.process d.group

/-- The next signal names a process by a number: by that of its group, or by its pid. -/
def Numbered (w : KillRun) (q : Process) : Label → Prop
  | .step _ =>
    match w.pc with
    | some (.group _) => ∃ n, w.domain.leaderPgid = some n ∧ w.kernel.pgid q = some n
    | some (.tracked _ (child :: _)) => child.pidfd = none ∧ q.pid = child.pid
    | _ => False
  | _ => False

/-- The number that the domain is about to signal has not gone to another running process. -/
def Unassigned (w : KillRun) (l : Label) : Prop :=
  ∀ (i : Nat) (q : Process), w.kernel.processes[i]? = some q → q.exited = false →
    w.Numbered q l → w.Own i q.group

/-- The domain signals a group with a leader or a member that is not reaped, and by its pid only a
child that is not reaped. -/
def Held (w : KillRun) : Label → Prop
  | .step _ =>
    match w.pc with
    | some (.group _) => ∀ n, w.domain.leaderPgid = some n →
        ∃ p ∈ w.leaders, (∃ q, w.kernel.processes[p]? = some q ∧ q.pid = n) ∧
          ∃ i q, w.kernel.processes[i]? = some q ∧ q.reaped = false ∧ (i = p ∨ q.group = p)
    | some (.tracked _ (child :: _)) => child.pidfd = none →
        ∃ c ∈ w.children, ∃ q, w.kernel.processes[c]? = some q ∧ q.pid = child.pid ∧ q.reaped = false
    | _ => True
  | _ => True

end KillRun

/-! ## The numbers of the processes -/

namespace Kernel

variable {k k' : Kernel} {named : Nat → Process → Bool} {signal : Signal} {d : Delivery}
  {i j : Nat} {q r : Process} {pid : Pid}

theorem mem_deliver : d ∈ (k.deliver named signal).delivered ↔ d ∈ k.delivered ∨
    ∃ i q, k.processes[i]? = some q ∧ q.exited = false ∧ named i q = true ∧
      d = { process := i, group := q.group, signal } := by
  simp only [deliver, List.mem_append, List.mem_map, List.mem_filter, Prod.exists,
    List.mem_zipIdx_iff_getElem?, Bool.and_eq_true, Bool.not_eq_true']
  constructor
  · rintro (h | ⟨q, i, ⟨hi, he, hn⟩, rfl⟩)
    · exact .inl h
    · exact .inr ⟨i, q, hi, he, hn, rfl⟩
  · rintro (h | ⟨i, q, hi, he, hn, rfl⟩)
    · exact .inl h
    · exact .inr ⟨q, i, ⟨hi, he, hn⟩, rfl⟩

/-- A number that is in use names one process and one group, the process being the founder. -/
structure Sound (k : Kernel) : Prop where
  exited : ∀ (i : Nat) (q : Process), k.processes[i]? = some q → q.reaped = true → q.exited = true
  founded : ∀ (i : Nat) (q : Process), k.processes[i]? = some q → q.group < k.processes.length
  pids : ∀ (i j : Nat) (q r : Process), k.processes[i]? = some q → k.processes[j]? = some r →
    q.reaped = false → r.reaped = false → q.pid = r.pid → i = j
  groups : ∀ (i j : Nat) (q r : Process), k.processes[i]? = some q → k.processes[j]? = some r →
    q.reaped = false → r.reaped = false → k.pgid q = k.pgid r → q.group = r.group
  founders : ∀ (i j : Nat) (q r : Process), k.processes[i]? = some q → k.processes[j]? = some r →
    q.reaped = false → r.reaped = false → k.pgid r = some q.pid → r.group = i

theorem Sound.init : Sound init := by
  constructor <;> intro i <;> simp [Kernel.init]

/-- The processes are as they were, but for some that have exited or were reaped. -/
structure Fades (k k' : Kernel) : Prop where
  length : k'.processes.length = k.processes.length
  process : ∀ (i : Nat) (q' : Process), k'.processes[i]? = some q' →
    ∃ q, k.processes[i]? = some q ∧ q'.pid = q.pid ∧ q'.group = q.group ∧
      (q'.reaped = false → q.reaped = false) ∧ (q'.reaped = true → q.reaped = true ∨ q'.exited = true) ∧
        (q.exited = true → q'.exited = true)

theorem Fades.pgid (h : Fades k k') {q' : Process} (hq : q'.group = q.group) :
    k'.pgid q' = k.pgid q := by
  rw [Kernel.pgid, Kernel.pgid, hq]
  cases hf : k'.processes[q.group]? with
  | some f =>
    obtain ⟨f', hf', hpid, -⟩ := h.process _ f hf
    rw [hf', Option.map_some, Option.map_some, hpid]
  | none =>
    rw [List.getElem?_eq_none_iff, h.length] at hf
    rw [List.getElem?_eq_none hf]

theorem Sound.fades (hs : Sound k) (h : Fades k k') : Sound k' := by
  refine ⟨?_, ?_, ?_, ?_, ?_⟩
  · intro i q' hq' hr
    obtain ⟨q, hq, -, -, -, hreaped, hexited⟩ := h.process i q' hq'
    rcases hreaped hr with hold | he
    · exact hexited (hs.exited i q hq hold)
    · exact he
  · intro i q' hq'
    obtain ⟨q, hq, -, hgroup, -⟩ := h.process i q' hq'
    rw [hgroup, h.length]
    exact hs.founded i q hq
  · intro i j q' r' hq' hr' hqr hrr hpid
    obtain ⟨q, hq, hqp, -, hqa, -⟩ := h.process i q' hq'
    obtain ⟨r, hr, hrp, -, hra, -⟩ := h.process j r' hr'
    exact hs.pids i j q r hq hr (hqa hqr) (hra hrr) (hqp ▸ hrp ▸ hpid)
  · intro i j q' r' hq' hr' hqr hrr hpgid
    obtain ⟨q, hq, -, hqg, hqa, -⟩ := h.process i q' hq'
    obtain ⟨r, hr, -, hrg, hra, -⟩ := h.process j r' hr'
    rw [h.pgid hqg, h.pgid hrg] at hpgid
    rw [hqg, hrg]
    exact hs.groups i j q r hq hr (hqa hqr) (hra hrr) hpgid
  · intro i j q' r' hq' hr' hqr hrr hpgid
    obtain ⟨q, hq, hqp, -, hqa, -⟩ := h.process i q' hq'
    obtain ⟨r, hr, -, hrg, hra, -⟩ := h.process j r' hr'
    rw [h.pgid hrg, hqp] at hpgid
    rw [hrg]
    exact hs.founders i j q r hq hr (hqa hqr) (hra hrr) hpgid

theorem Fades.refl (h : Sound k) : Fades k k :=
  ⟨rfl, fun i q hq => ⟨q, hq, rfl, rfl, id, fun hr => .inr (h.exited i q hq hr), id⟩⟩

/-- A running process is not reaped. -/
theorem Sound.not_reaped (h : Sound k) (hi : k.processes[i]? = some q) (hrun : q.exited = false) :
    q.reaped = false := by
  cases hr : q.reaped with
  | false => rfl
  | true =>
    rw [h.exited i q hi hr] at hrun
    cases hrun

/-- A signal changes no process. -/
theorem Sound.deliver (h : Sound k) (named : Nat → Process → Bool) (signal : Signal) :
    Sound (k.deliver named signal) :=
  ⟨h.exited, h.founded, h.pids, h.groups, h.founders⟩

/-- What `reap_nonblocking` does to a process. -/
theorem fades_reapNonblocking (h : Sound k) (pid : Pid) : Fades k (k.reapNonblocking pid) := by
  refine ⟨by simp [reapNonblocking], ?_⟩
  intro i q' hq'
  simp only [reapNonblocking, List.getElem?_map] at hq'
  obtain ⟨q, hq, rfl⟩ := Option.map_eq_some_iff.mp hq'
  refine ⟨q, hq, ?_⟩
  split_ifs with hreap
  · exact ⟨rfl, rfl, by simp, fun _ => .inr hreap.2.2, id⟩
  · exact ⟨rfl, rfl, id, fun hr => .inr (h.exited i q hq hr), id⟩

theorem mem_fork {group : Option Nat} {ours : Bool}
    (hq : (k.fork pid group ours).processes[i]? = some q) :
    k.processes[i]? = some q ∨ (i = k.processes.length ∧ q.pid = pid ∧
      q.group = group.getD k.processes.length ∧ q.reaped = false) := by
  simp only [fork] at hq
  by_cases hlt : i < k.processes.length
  · exact .inl (by rwa [List.getElem?_append_left hlt] at hq)
  · rw [List.getElem?_append_right (by omega)] at hq
    have hi := (List.getElem?_eq_some_iff.mp hq).1
    obtain rfl := List.mem_singleton.mp (List.mem_of_getElem? hq)
    exact .inr ⟨by simp at hi; omega, rfl, rfl, rfl⟩

theorem pgid_eq_of_group (h : q.group = r.group) : k.pgid q = k.pgid r := by
  rw [pgid, pgid, h]

/-- The pid of its founder is the number of a group. -/
theorem pgid_of_founder (hi : k.processes[i]? = some q) (hr : r.group = i) :
    k.pgid r = some q.pid := by
  rw [pgid, hr, hi, Option.map_some]

theorem pgid_fork {group : Option Nat} {ours : Bool} (hlt : q.group < k.processes.length) :
    (k.fork pid group ours).pgid q = k.pgid q := by
  simp only [pgid, fork, List.getElem?_append_left hlt]

theorem pgid_fork_self {group : Option Nat} {ours : Bool}
    (hq : q.group = k.processes.length) : (k.fork pid group ours).pgid q = some pid := by
  simp [pgid, fork, hq]

theorem not_free_of (hfree : k.free pid = true) (hq : k.processes[i]? = some q)
    (hr : q.reaped = false) : q.pid ≠ pid ∧ k.pgid q ≠ some pid := by
  have hall := List.all_eq_true.mp hfree q (List.mem_of_getElem? hq)
  simpa [hr] using hall

theorem joinable_iff {group : Nat} : KillRun.joinable k group = true ↔
    ∃ (i : Nat) (q : Process), k.processes[i]? = some q ∧ q.reaped = false ∧ q.group = group := by
  simp only [KillRun.joinable, List.any_eq_true, Bool.and_eq_true, Bool.not_eq_true', beq_iff_eq]
  constructor
  · rintro ⟨q, hq, hr, hg⟩
    obtain ⟨i, hi⟩ := List.mem_iff_getElem?.mp hq
    exact ⟨i, q, hi, hr, hg⟩
  · rintro ⟨i, q, hi, hr, hg⟩
    exact ⟨q, List.mem_of_getElem? hi, hr, hg⟩

/-- The number of a group after a fork: the new process is the founder of its group, or has the
group of a process that was there. -/
theorem Sound.pgid_forked (h : Sound k) (pid : Pid) (ours : Bool) {group : Option Nat}
    (hgroup : group.all (KillRun.joinable k) = true) (hq : q.group = group.getD k.processes.length) :
    (q.group = k.processes.length ∧ (k.fork pid group ours).pgid q = some pid) ∨
      ∃ (j : Nat) (m : Process), k.processes[j]? = some m ∧ m.reaped = false ∧ q.group = m.group ∧
        (k.fork pid group ours).pgid q = k.pgid m := by
  cases group with
  | none => exact .inl ⟨hq, pgid_fork_self hq⟩
  | some g =>
    obtain ⟨j, m, hj, hr, hg⟩ := joinable_iff.mp (by simpa using hgroup)
    have hgm : q.group = m.group := hq.trans hg.symm
    refine .inr ⟨j, m, hj, hr, hgm, ?_⟩
    rw [pgid_fork (hgm ▸ h.founded j m hj)]
    exact pgid_eq_of_group hgm

/-- A fork whose process leads a group of its own, or joins one that has a member. -/
theorem Sound.fork (h : Sound k) {group : Option Nat} {ours : Bool} (hfree : k.free pid = true)
    (hgroup : group.all (KillRun.joinable k) = true) : Sound (k.fork pid group ours) := by
  have hold : ∀ (i : Nat) (q : Process), k.processes[i]? = some q →
      (k.fork pid group ours).pgid q = k.pgid q := fun i q hq => pgid_fork (h.founded i q hq)
  have hlen : (k.fork pid group ours).processes.length = k.processes.length + 1 := by
    simp [Kernel.fork]
  refine ⟨?_, ?_, ?_, ?_, ?_⟩
  · intro i q hq hr
    rcases mem_fork hq with hq | ⟨-, -, -, hnr⟩
    · exact h.exited i q hq hr
    · rw [hnr] at hr
      cases hr
  · intro i q hq
    rw [hlen]
    rcases mem_fork hq with hq | ⟨-, -, hg, -⟩
    · exact Nat.lt_succ_of_lt (h.founded i q hq)
    · rcases h.pgid_forked pid ours hgroup hg with ⟨hself, -⟩ | ⟨j, m, hj, -, hgm, -⟩
      · omega
      · rw [hgm]
        exact Nat.lt_succ_of_lt (h.founded j m hj)
  · intro i j q r hq hr hqr hrr hpid
    rcases mem_fork hq with hq | ⟨rfl, hqp, -, -⟩
    · rcases mem_fork hr with hr | ⟨rfl, hrp, -, -⟩
      · exact h.pids i j q r hq hr hqr hrr hpid
      · exact absurd (hpid.trans hrp) (not_free_of hfree hq hqr).1
    · rcases mem_fork hr with hr | ⟨rfl, -, -, -⟩
      · exact absurd (hpid.symm.trans hqp) (not_free_of hfree hr hrr).1
      · rfl
  · intro i j q r hq hr hqr hrr hpgid
    rcases mem_fork hq with hq' | ⟨rfl, -, hqg, -⟩
    · rw [hold i q hq'] at hpgid
      rcases mem_fork hr with hr' | ⟨-, -, hrg, -⟩
      · rw [hold j r hr'] at hpgid
        exact h.groups i j q r hq' hr' hqr hrr hpgid
      · rcases h.pgid_forked pid ours hgroup hrg with ⟨-, hself⟩ | ⟨n, m, hn, hm, hgm, hmember⟩
        · exact absurd (hpgid.trans hself) (not_free_of hfree hq' hqr).2
        · rw [hgm]
          exact h.groups i n q m hq' hn hqr hm (hpgid.trans hmember)
    · rcases mem_fork hr with hr' | ⟨rfl, -, -, -⟩
      · rw [hold j r hr'] at hpgid
        rcases h.pgid_forked pid ours hgroup hqg with ⟨-, hself⟩ | ⟨n, m, hn, hm, hgm, hmember⟩
        · exact absurd (hpgid.symm.trans hself) (not_free_of hfree hr' hrr).2
        · rw [hgm]
          exact h.groups n j m r hn hr' hm hrr (hmember.symm.trans hpgid)
      · obtain rfl := Option.some.inj (hq.symm.trans hr)
        rfl
  · intro i j q r hq hr hqr hrr hpgid
    rcases mem_fork hr with hr' | ⟨-, -, hrg, -⟩
    · rw [hold j r hr'] at hpgid
      rcases mem_fork hq with hq' | ⟨rfl, hqp, -, -⟩
      · exact h.founders i j q r hq' hr' hqr hrr hpgid
      · rw [hqp] at hpgid
        exact absurd hpgid (not_free_of hfree hr' hrr).2
    · rcases h.pgid_forked pid ours hgroup hrg with ⟨hlen', hself⟩ | ⟨n, m, hn, hm, hgm, hmember⟩
      · rcases mem_fork hq with hq' | ⟨rfl, -, -, -⟩
        · rw [hself] at hpgid
          exact absurd (Option.some.inj hpgid).symm (not_free_of hfree hq' hqr).1
        · exact hlen'
      · rw [hmember] at hpgid
        rcases mem_fork hq with hq' | ⟨rfl, hqp, -, -⟩
        · rw [hgm]
          exact h.founders i n q m hq' hn hqr hm hpgid
        · rw [hqp] at hpgid
          exact absurd hpgid (not_free_of hfree hn hm).2

/-- The number of a group that process `i` may take names this group alone. -/
theorem Sound.group_of_pgid (h : Sound k) {group : Nat} (hi : k.processes[i]? = some q)
    (hqr : q.reaped = false) (hgroup : group = i ∨ KillRun.joinable k group = true)
    (hj : k.processes[j]? = some r) (hr : r.reaped = false)
    (hp : k.pgid r = k.pgid { q with group }) : r.group = group := by
  rcases hgroup with rfl | hg
  · exact h.founders _ j q r hi hj hqr hr (hp.trans (pgid_of_founder hi rfl))
  · obtain ⟨n, m, hn, hm, hgm⟩ := joinable_iff.mp hg
    rw [← hgm]
    exact h.groups j n r m hj hn hr hm (hp.trans (pgid_eq_of_group hgm.symm))

/-- The process that has this number as its pid is the founder of the group. -/
theorem Sound.founder_of_pgid (h : Sound k) {group : Nat} (hi : k.processes[i]? = some q)
    (hqr : q.reaped = false) (hgroup : group = i ∨ KillRun.joinable k group = true)
    (hj : k.processes[j]? = some r) (hr : r.reaped = false)
    (hp : k.pgid { q with group } = some r.pid) : group = j := by
  rcases hgroup with rfl | hg
  · exact h.pids _ j q r hi hj hqr hr (Option.some.inj ((pgid_of_founder hi rfl).symm.trans hp))
  · obtain ⟨n, m, hn, hm, hgm⟩ := joinable_iff.mp hg
    rw [← hgm]
    exact h.founders j n r m hj hn hr hm ((pgid_eq_of_group hgm).trans hp)

theorem mem_setGroup {group : Nat} {r' : Process} (hi : k.processes[i]? = some q)
    (hr' : (k.processes.modify i fun q => { q with group })[j]? = some r') :
    (i ≠ j ∧ k.processes[j]? = some r') ∨ (i = j ∧ r' = { q with group }) := by
  rw [List.getElem?_modify] at hr'
  by_cases hij : i = j
  · subst hij
    rw [hi] at hr'
    simp only [if_true, Option.map_eq_map, Option.map_some, Option.some.injEq] at hr'
    exact .inr ⟨rfl, hr'.symm⟩
  · simp only [if_neg hij, Option.map_eq_map, Option.map_id'] at hr'
    exact .inl ⟨hij, hr'⟩

theorem pgid_setGroup {group : Nat} (r : Process) :
    Kernel.pgid { k with processes := k.processes.modify i fun q => { q with group } } r =
      k.pgid r := by
  simp only [pgid, List.getElem?_modify]
  cases k.processes[r.group]? with
  | none => rfl
  | some f => by_cases hf : i = r.group <;> simp [hf]

/-- A running process takes a group of its own, or joins one that has a member. -/
theorem Sound.setGroup (h : Sound k) {group : Nat} (hi : k.processes[i]? = some q)
    (hrun : q.exited = false) (hgroup : group = i ∨ KillRun.joinable k group = true) :
    Sound { k with processes := k.processes.modify i fun q => { q with group } } := by
  have hqr := h.not_reaped hi hrun
  refine ⟨?_, ?_, ?_, ?_, ?_⟩
  · intro j r' hr' hreaped
    rcases mem_setGroup hi hr' with ⟨-, hr⟩ | ⟨rfl, rfl⟩
    · exact h.exited j r' hr hreaped
    · exact h.exited i q hi hreaped
  · intro j r' hr'
    rw [List.length_modify]
    rcases mem_setGroup hi hr' with ⟨-, hr⟩ | ⟨-, rfl⟩
    · exact h.founded j r' hr
    · rcases hgroup with rfl | hg
      · exact (List.getElem?_eq_some_iff.mp hi).1
      · obtain ⟨n, m, hn, -, rfl⟩ := joinable_iff.mp hg
        exact h.founded n m hn
  · intro j n r m hr hm hrr hmr hpid
    rcases mem_setGroup hi hr with ⟨-, hr⟩ | ⟨rfl, rfl⟩
    · rcases mem_setGroup hi hm with ⟨-, hm⟩ | ⟨rfl, rfl⟩
      · exact h.pids j n r m hr hm hrr hmr hpid
      · exact h.pids j i r q hr hi hrr hqr hpid
    · rcases mem_setGroup hi hm with ⟨-, hm⟩ | ⟨rfl, rfl⟩
      · exact h.pids i n q m hi hm hqr hmr hpid
      · rfl
  · intro j n r m hr hm hrr hmr hp
    rw [pgid_setGroup, pgid_setGroup] at hp
    rcases mem_setGroup hi hr with ⟨-, hr⟩ | ⟨rfl, rfl⟩
    · rcases mem_setGroup hi hm with ⟨-, hm⟩ | ⟨rfl, rfl⟩
      · exact h.groups j n r m hr hm hrr hmr hp
      · exact h.group_of_pgid hi hqr hgroup hr hrr hp
    · rcases mem_setGroup hi hm with ⟨-, hm⟩ | ⟨rfl, rfl⟩
      · exact (h.group_of_pgid hi hqr hgroup hm hmr hp.symm).symm
      · rfl
  · intro j n r m hr hm hrr hmr hp
    rw [pgid_setGroup] at hp
    rcases mem_setGroup hi hr with ⟨-, hr⟩ | ⟨rfl, rfl⟩
    · rcases mem_setGroup hi hm with ⟨-, hm⟩ | ⟨rfl, rfl⟩
      · exact h.founders j n r m hr hm hrr hmr hp
      · exact h.founder_of_pgid hi hqr hgroup hr hrr hp
    · rcases mem_setGroup hi hm with ⟨-, hm⟩ | ⟨rfl, rfl⟩
      · exact h.founders i n q m hi hm hqr hmr hp
      · exact h.founder_of_pgid hi hqr hgroup hi hqr hp

end Kernel

namespace KillRun

open Trace

variable {w w' : KillRun} {l : Label} {i : Nat} {q : Process} {d : Delivery}

/-- The pidfds of the domain are handles on tracked children. -/
def Opened (w : KillRun) (child : TrackedChild) : Prop :=
  ∀ i, child.pidfd = some i → i ∈ w.children

/-- The children that a pass of `signal_tracked` has still to signal. -/
def toSignal (w : KillRun) : List TrackedChild :=
  match w.pc with
  | some (.tracked _ rest) => rest
  | _ => []

/-- The invariant of every run. -/
structure Inv (w : KillRun) : Prop where
  sound : w.kernel.Sound
  tracked : ∀ child ∈ w.domain.tracked, w.Opened child
  rest : ∀ child ∈ w.toSignal, w.Opened child

theorem Inv.init (limits : TrackingLimits) (openFileLimit : Option Nat) :
    Inv (KillRun.init limits openFileLimit) := by
  refine ⟨.init, ?_, ?_⟩ <;> intro child hc <;> cases hc

/-- What a step leaves of the memory of the domain: what it knew stays known. -/
structure Remembers (w w' : KillRun) : Prop where
  leaders : ∀ i ∈ w.leaders, i ∈ w'.leaders
  children : ∀ i ∈ w.children, i ∈ w'.children

theorem Own.mono {g : Nat} (h : w.Own i g) (hm : Remembers w w') : w'.Own i g := by
  rcases h with h | h | h
  · exact .inl (hm.leaders i h)
  · exact .inr (.inl (hm.leaders g h))
  · exact .inr (.inr (hm.children i h))

theorem Opened.mono {child : TrackedChild} (h : w.Opened child) (hm : Remembers w w') :
    w'.Opened child := fun i hi => hm.children i (h i hi)

/-- `track` keeps the domain as it was, or adds the child that it was asked for. -/
theorem track_cases (dom : SessionKillDomain) (global : GlobalTracking) (pid : Pid)
    (pidfd : Option Nat) :
    (∃ error, dom.track global pid pidfd = (dom, global, .error error)) ∨
      ∃ global', dom.track global pid pidfd =
        ({ dom with tracked := dom.tracked ++ [{ pid, pidfd }] }, global', .ok ()) := by
  rw [SessionKillDomain.track]
  split
  · exact .inl ⟨_, rfl⟩
  · cases global.reserve with
    | error error => exact .inl ⟨error, rfl⟩
    | ok global' => exact .inr ⟨global', rfl⟩

/-- What the domain remembers after `track` or `set_leader`. -/
structure Tracks (w w' : KillRun) : Prop where
  remembers : Remembers w w'
  kernel : w'.kernel = w.kernel
  pc : w'.pc = w.pc
  tracked : (∀ child ∈ w.domain.tracked, w.Opened child) → ∀ child ∈ w'.domain.tracked, w'.Opened child

theorem tracks_tracking (w : KillRun) (holder : Option Nat) (leader : Option Pid) (opened : Bool)
    (pid : Pid) : Tracks w (w.tracking holder
      ({ w.domain with leaderPgid := leader }.track w.global pid (if opened then holder else none))) := by
  rcases track_cases { w.domain with leaderPgid := leader } w.global pid
    (if opened then holder else none) with ⟨error, h⟩ | ⟨global', h⟩
  · rw [h]
    exact ⟨⟨fun _ h => h, fun _ h => h⟩, rfl, rfl, id⟩
  · rw [h]
    have hmem : ∀ i ∈ w.children, i ∈ w.children ++ holder.toList := fun i hi =>
      List.mem_append_left _ hi
    refine ⟨⟨fun _ h => h, hmem⟩, rfl, rfl, ?_⟩
    intro htracked child hc
    rcases List.mem_append.mp hc with hc | hc
    · exact fun i hi => hmem i (htracked child hc i hi)
    · obtain rfl := List.mem_singleton.mp hc
      intro i hi
      refine List.mem_append_right _ ?_
      cases opened with
      | true =>
        obtain rfl : holder = some i := hi
        simp
      | false => cases hi

/-- What a system call of `terminate_tier1` does. -/
structure Calls (w : KillRun) (timeUp : Bool) (w' : KillRun) : Prop where
  remembers : Remembers w w'
  domain : w'.domain = w.domain
  sound : w.kernel.Sound → w'.kernel.Sound
  rest : ∀ child ∈ w'.toSignal, child ∈ w.toSignal ∨ child ∈ w.domain.tracked
  delivered : ∀ d ∈ w'.kernel.delivered, d ∈ w.kernel.delivered ∨
    ∃ i q, w.kernel.processes[i]? = some q ∧ q.exited = false ∧ d.process = i ∧ d.group = q.group ∧
      (w.Numbered q (.step timeUp) ∨ ∃ child ∈ w.toSignal, child.pidfd = some i)
  kept : ∀ d ∈ w.kernel.delivered, d ∈ w'.kernel.delivered
  numbered : ∀ (i : Nat) (q : Process), w.kernel.processes[i]? = some q → q.exited = false →
    w.Numbered q (.step timeUp) → ∃ d ∈ w'.kernel.delivered, d.process = i ∧ d.group = q.group

/-- A system call that signals nobody. -/
theorem Calls.quiet {timeUp : Bool} {k' : Kernel} {pc : Option TerminatePc}
    (hsound : w.kernel.Sound → k'.Sound) (hdelivered : k'.delivered = w.kernel.delivered)
    (hrest : ∀ child ∈ ({ w with kernel := k', pc } : KillRun).toSignal,
      child ∈ w.toSignal ∨ child ∈ w.domain.tracked)
    (hnone : ∀ q, ¬ w.Numbered q (.step timeUp)) : Calls w timeUp { w with kernel := k', pc } := by
  refine ⟨⟨fun _ h => h, fun _ h => h⟩, rfl, hsound, hrest, ?_, ?_, ?_⟩
  · intro d hd
    exact .inl (hdelivered ▸ hd)
  · intro d hd
    exact hdelivered ▸ hd
  · intro i q _ _ hn
    exact absurd hn (hnone q)

/-- A system call that signals the processes of one name. -/
theorem Calls.signals {timeUp : Bool} {named : Nat → Process → Bool} {signal : Signal}
    {pc : Option TerminatePc}
    (hrest : ∀ child ∈ ({ w with pc } : KillRun).toSignal, child ∈ w.toSignal ∨ child ∈ w.domain.tracked)
    (hnamed : ∀ i q, named i q = true →
      w.Numbered q (.step timeUp) ∨ ∃ child ∈ w.toSignal, child.pidfd = some i)
    (hnumbered : ∀ i q, w.Numbered q (.step timeUp) → named i q = true) :
    Calls w timeUp { w with kernel := w.kernel.deliver named signal, pc } := by
  refine ⟨⟨fun _ h => h, fun _ h => h⟩, rfl, fun h => h.deliver named signal, hrest, ?_, ?_, ?_⟩
  · intro d hd
    rcases Kernel.mem_deliver.mp hd with hd | ⟨i, q, hi, he, hn, rfl⟩
    · exact .inl hd
    · exact .inr ⟨i, q, hi, he, rfl, rfl, hnamed i q hn⟩
  · intro d hd
    exact Kernel.mem_deliver.mpr (.inl hd)
  · intro i q hi he hn
    exact ⟨_, Kernel.mem_deliver.mpr (.inr ⟨i, q, hi, he, hnumbered i q hn, rfl⟩), rfl, rfl⟩

/-- A pass of `signal_tracked` begins with the tracked children. -/
theorem mem_toSignal_terminateStep {timeUp : Bool} {pc : TerminatePc} (hpc : w.pc = some pc) :
    ∀ child ∈ (w.terminateStep timeUp pc).toSignal,
      child ∈ w.toSignal ∨ child ∈ w.domain.tracked := by
  intro child hchild
  have hold : w.toSignal = toSignal { w with pc := some pc } := by rw [toSignal, toSignal, hpc]
  rw [hold]
  cases pc with
  | group signal => exact .inr hchild
  | tracked signal rest =>
    cases rest with
    | nil => cases hchild
    | cons first rest => exact .inl (List.mem_cons_of_mem first hchild)
  | reap signal rest => cases rest <;> cases hchild
  | probe signal rest =>
    cases rest with
    | nil =>
      simp only [terminateStep, toSignal] at hchild
      by_cases halive : w.domain.leaderPgid.any w.kernel.groupAlive = true
      · simp [halive] at hchild
      · simp [halive] at hchild
    | cons first rest =>
      simp only [terminateStep, toSignal] at hchild
      by_cases halive : w.kernel.pidAlive first.pid = true
      · simp [halive] at hchild
      · simp [halive] at hchild
  | alive signal => cases timeUp <;> cases signal <;> cases hchild
  | finalReap rest => cases rest <;> cases hchild

theorem calls_terminateStep {timeUp : Bool} {pc : TerminatePc} (hpc : w.pc = some pc) :
    Calls w timeUp (w.terminateStep timeUp pc) := by
  have hrest := @mem_toSignal_terminateStep w timeUp pc hpc
  cases pc with
  | group signal =>
    rw [terminateStep, SessionKillDomain.signalLeader] at hrest ⊢
    cases hleader : w.domain.leaderPgid with
    | none =>
      refine Calls.quiet (fun h => h) rfl hrest ?_
      intro q hn
      simp [Numbered, hpc, hleader] at hn
    | some pgid =>
      refine Calls.signals hrest ?_ ?_
      · intro i q hn
        left
        simpa [Numbered, hpc, hleader] using hn
      · intro i q hn
        simpa [Numbered, hpc, hleader] using hn
  | tracked signal rest =>
    cases rest with
    | nil =>
      refine Calls.quiet (fun h => h) rfl hrest ?_
      intro q hn
      simp [Numbered, hpc] at hn
    | cons child rest =>
      have htosignal : child ∈ w.toSignal := by simp [toSignal, hpc]
      rw [terminateStep, SessionKillDomain.signalChild] at hrest ⊢
      cases hfd : child.pidfd with
      | some pidfd =>
        refine Calls.signals hrest ?_ ?_
        · intro i q hn
          obtain rfl : i = pidfd := by simpa using hn
          exact .inr ⟨child, htosignal, hfd⟩
        · intro i q hn
          simp [Numbered, hpc, hfd] at hn
      | none =>
        refine Calls.signals hrest ?_ ?_
        · intro i q hn
          left
          simpa [Numbered, hpc, hfd] using hn
        · intro i q hn
          simpa [Numbered, hpc, hfd] using hn
  | reap signal rest =>
    have hnone : ∀ q, ¬ w.Numbered q (.step timeUp) := by
      intro q hn
      simp [Numbered, hpc] at hn
    cases rest with
    | nil => exact Calls.quiet (fun h => h) rfl hrest hnone
    | cons child rest =>
      exact Calls.quiet (fun h => h.fades (Kernel.fades_reapNonblocking h _)) rfl hrest hnone
  | probe signal rest =>
    have hnone : ∀ q, ¬ w.Numbered q (.step timeUp) := by
      intro q hn
      simp [Numbered, hpc] at hn
    cases rest <;> exact Calls.quiet (fun h => h) rfl hrest hnone
  | alive signal =>
    refine Calls.quiet (fun h => h) rfl hrest ?_
    intro q hn
    simp [Numbered, hpc] at hn
  | finalReap rest =>
    have hnone : ∀ q, ¬ w.Numbered q (.step timeUp) := by
      intro q hn
      simp [Numbered, hpc] at hn
    cases rest with
    | nil => exact Calls.quiet (fun h => h) rfl hrest hnone
    | cons child rest =>
      exact Calls.quiet (fun h => h.fades (Kernel.fades_reapNonblocking h _)) rfl hrest hnone

/-- What a label that is no step of `terminate` does: it signals nobody. -/
structure Moves (w w' : KillRun) : Prop where
  remembers : Remembers w w'
  inv : Inv w → Inv w'
  delivered : w'.kernel.delivered = w.kernel.delivered

/-- A move of the processes. -/
theorem Moves.processes {ps : List Process} (h : w.kernel.Sound →
    Kernel.Sound { w.kernel with processes := ps }) :
    Moves w { w with kernel := { w.kernel with processes := ps } } :=
  ⟨⟨fun _ h => h, fun _ h => h⟩, fun hi => ⟨h hi.sound, hi.tracked, hi.rest⟩, rfl⟩

/-- A process exits, or an exited one is reaped. -/
theorem fades_modify (h : w.kernel.Sound) {f : Process → Process} (hpid : ∀ q, (f q).pid = q.pid)
    (hgroup : ∀ q, (f q).group = q.group) (hr : ∀ q, (f q).reaped = false → q.reaped = false)
    (hr' : ∀ q, (f q).reaped = true → q.reaped = true ∨ (f q).exited = true)
    (he : ∀ q, q.exited = true → (f q).exited = true) :
    Kernel.Fades w.kernel { w.kernel with processes := w.kernel.processes.modify i f } := by
  refine ⟨by simp, ?_⟩
  intro j q' hq'
  simp only [List.getElem?_modify] at hq'
  by_cases hij : i = j
  · simp only [if_pos hij, Option.map_eq_map] at hq'
    obtain ⟨q, hq, rfl⟩ := Option.map_eq_some_iff.mp hq'
    exact ⟨q, hq, hpid q, hgroup q, hr q, hr' q, he q⟩
  · simp only [if_neg hij, Option.map_eq_map, Option.map_id'] at hq'
    exact (Kernel.Fades.refl h).process j q' hq'

theorem toSignal_of_pc (h : w'.pc = w.pc) : w'.toSignal = w.toSignal := by
  simp only [toSignal, h]

theorem Tracks.moves (h : Tracks w w') : Moves w w' := by
  refine ⟨h.remembers, fun hi => ⟨h.kernel ▸ hi.sound, h.tracked hi.tracked, ?_⟩, by rw [h.kernel]⟩
  rw [toSignal_of_pc h.pc]
  exact fun c hc => (hi.rest c hc).mono h.remembers

/-- The new leader is noted as well. -/
theorem Tracks.leaders (h : Tracks w w') (is : List Nat) :
    Tracks w { w' with leaders := w.leaders ++ is } :=
  ⟨⟨fun _ hi => List.mem_append_left _ hi, h.remembers.children⟩, h.kernel, h.pc, h.tracked⟩

theorem next_moves (hl : ∀ timeUp, l ≠ .step timeUp) (hs : w.next l = some w') :
    Moves w w' := by
  cases l with
  | fork pid group ours =>
    simp only [next] at hs
    split at hs
    next hfree =>
      obtain rfl := Option.some.inj hs
      rw [Bool.and_eq_true] at hfree
      exact Moves.processes fun h => h.fork hfree.1 hfree.2
    · cases hs
  | setGroup i group =>
    simp only [next] at hs
    split at hs
    next hgroup =>
      obtain rfl := Option.some.inj hs
      rw [Bool.and_eq_true, Option.any_eq_true, Bool.or_eq_true, beq_iff_eq] at hgroup
      obtain ⟨⟨q, hq, hrun⟩, hgroup⟩ := hgroup
      exact Moves.processes fun h => h.setGroup hq (by simpa using hrun) hgroup
    · cases hs
  | exit i =>
    obtain rfl := Option.some.inj hs
    refine Moves.processes fun h => h.fades (fades_modify h ?_ ?_ ?_ ?_ ?_) <;> simp
  | reap i =>
    obtain rfl := Option.some.inj hs
    refine Moves.processes fun h => h.fades (fades_modify h ?_ ?_ ?_ ?_ ?_)
    all_goals
      intro q
      cases he : q.exited <;> simp +contextual
  | elsewhere tracked =>
    obtain rfl := Option.some.inj hs
    exact ⟨⟨fun _ h => h, fun _ h => h⟩, fun hi => ⟨hi.sound, hi.tracked, hi.rest⟩, rfl⟩
  | setLeader pid opened =>
    simp only [next] at hs
    split at hs
    · obtain rfl := Option.some.inj hs
      exact ((tracks_tracking w (w.kernel.holder pid) (some pid) opened pid).leaders _).moves
    · cases hs
  | track pid opened =>
    simp only [next] at hs
    split at hs
    · obtain rfl := Option.some.inj hs
      exact (tracks_tracking w (w.kernel.holder pid) w.domain.leaderPgid opened pid).moves
    · cases hs
  | terminate =>
    simp only [next] at hs
    split at hs
    · obtain rfl := Option.some.inj hs
      exact ⟨⟨fun _ h => h, fun _ h => h⟩, fun hi => ⟨hi.sound, hi.tracked, fun c hc => (by cases hc)⟩, rfl⟩
    · cases hs
  | step timeUp => exact absurd rfl (hl timeUp)
  | release =>
    simp only [next] at hs
    split at hs
    · obtain rfl := Option.some.inj hs
      exact ⟨⟨fun _ h => h, fun _ h => h⟩,
        fun hi => ⟨hi.sound, fun c hc => (by cases hc), hi.rest⟩, rfl⟩
    · cases hs

/-! ## Runs -/

theorem Calls.inv {timeUp : Bool} (hc : Calls w timeUp w') (hi : Inv w) : Inv w' := by
  refine ⟨hc.sound hi.sound, ?_, ?_⟩
  · rw [hc.domain]
    exact fun c h => (hi.tracked c h).mono hc.remembers
  · intro c h
    rcases hc.rest c h with h | h
    · exact (hi.rest c h).mono hc.remembers
    · exact (hi.tracked c h).mono hc.remembers

theorem next_step {timeUp : Bool} (hs : w.next (.step timeUp) = some w') : Calls w timeUp w' := by
  obtain ⟨pc, hpc, rfl⟩ := Option.map_eq_some_iff.mp hs
  exact calls_terminateStep hpc

theorem Inv.next (hi : Inv w) (hs : w.next l = some w') : Inv w' := by
  by_cases hl : ∃ timeUp, l = .step timeUp
  · obtain ⟨timeUp, rfl⟩ := hl
    exact (next_step hs).inv hi
  · exact (next_moves (fun timeUp h => hl ⟨timeUp, h⟩) hs).inv hi

theorem Spared.next (hi : Inv w) (h : Spared w) (hu : Unassigned w l) (hs : w.next l = some w') :
    Spared w' := by
  by_cases hl : ∃ timeUp, l = .step timeUp
  · obtain ⟨timeUp, rfl⟩ := hl
    have hc := next_step hs
    intro d hd
    rcases hc.delivered d hd with hold | ⟨i, q, hq, he, hp, hg, hn | ⟨child, hchild, hfd⟩⟩
    · exact (h d hold).mono hc.remembers
    · rw [hp, hg]
      exact (hu i q hq he hn).mono hc.remembers
    · rw [hp]
      exact .inr (.inr (hc.remembers.children i (hi.rest child hchild i hfd)))
  · have hm := next_moves (fun timeUp h => hl ⟨timeUp, h⟩) hs
    intro d hd
    exact (h d (hm.delivered ▸ hd)).mono hm.remembers

/-- A step that signals a number of somebody else harms it. -/
theorem not_spared_of_assigned (hu : ¬ Unassigned w l) (hs : w.next l = some w') :
    ¬ Spared w' := by
  intro hspared
  simp only [Unassigned, not_forall] at hu
  obtain ⟨i, q, hq, he, hn, hown⟩ := hu
  by_cases hl : ∃ timeUp, l = .step timeUp
  · obtain ⟨timeUp, rfl⟩ := hl
    obtain ⟨d, hd, hp, hg⟩ := (next_step hs).numbered i q hq he hn
    have hown' := hspared d hd
    rw [hp, hg] at hown'
    obtain ⟨pc, -, rfl⟩ := Option.map_eq_some_iff.mp hs
    -- A step of `terminate` makes nobody a leader or a child.
    have hsame : (w.terminateStep timeUp pc).leaders = w.leaders ∧
        (w.terminateStep timeUp pc).children = w.children := by
      unfold terminateStep
      split <;> exact ⟨rfl, rfl⟩
    rw [Own, hsame.1, hsame.2] at hown'
    exact hown hown'
  · cases l with
    | step timeUp => exact hl ⟨timeUp, rfl⟩
    | _ => exact hn

/-- A number that is held is not somebody else's. -/
theorem unassigned_of_held (hi : Inv w) (hheld : Held w l) : Unassigned w l := by
  intro i q hq he hn
  have hrun := hi.sound.not_reaped hq he
  cases l with
  | step timeUp =>
    simp only [Numbered] at hn
    simp only [Held] at hheld
    split at hn
    next signal hpc =>
      obtain ⟨n, hleader, hpgid⟩ := hn
      rw [hpc] at hheld
      obtain ⟨p, hp, ⟨r, hr, hrpid⟩, j, m, hm, hmr, hmember⟩ := hheld n hleader
      refine .inr (.inl ?_)
      rcases hmember with rfl | hgroup
      · obtain rfl := Option.some.inj (hr.symm.trans hm)
        rw [hi.sound.founders j i r q hr hq hmr hrun (hpgid.trans (congrArg some hrpid.symm))]
        exact hp
      · have hmn : w.kernel.pgid m = some n := by
          rw [Kernel.pgid, hgroup, hr, Option.map_some, hrpid]
        rw [hi.sound.groups i j q m hq hm hrun hmr (hpgid.trans hmn.symm), hgroup]
        exact hp
    next signal child rest hpc =>
      rw [hpc] at hheld
      obtain ⟨c, hc, r, hr, hrpid, hrr⟩ := hheld hn.1
      rw [hi.sound.pids i c q r hq hr hrun hrr (hn.2.trans hrpid.symm)]
      exact .inr (.inr hc)
    · cases hn
  | _ => cases hn

theorem allStates_spared_iff (limits : TrackingLimits) (openFileLimit : Option Nat)
    (ls : List Label) :
    AllStates next Spared (KillRun.init limits openFileLimit) ls ↔
      AllSteps next Unassigned (KillRun.init limits openFileLimit) ls :=
  allStates_iff_allSteps (I := fun w => Inv w ∧ Spared w) (fun _ h => h.2)
    (fun _ _ _ h hu hs => ⟨h.1.next hs, h.2.next h.1 hu hs⟩)
    (fun _ _ _ _ hu hs => not_spared_of_assigned hu hs)
    ⟨.init limits openFileLimit, fun d hd => by cases hd⟩

/-- A kill domain signals no stranger in exactly the runs in which no number that it signals has
gone to another running process; and none has when the domain signals only numbers that are held. -/
theorem spared_iff_unassigned (limits : TrackingLimits) (openFileLimit : Option Nat)
    (ls : List Label) :
    (AllStates next Spared (KillRun.init limits openFileLimit) ls ↔
        AllSteps next Unassigned (KillRun.init limits openFileLimit) ls) ∧
      (AllSteps next Held (KillRun.init limits openFileLimit) ls →
        AllSteps next Unassigned (KillRun.init limits openFileLimit) ls) := by
  refine ⟨allStates_spared_iff limits openFileLimit ls, fun hheld => ?_⟩
  have hinv : AllStates next Inv (KillRun.init limits openFileLimit) ls :=
    AllStates.of_next (fun _ _ _ h hs => h.next hs) (.init limits openFileLimit)
  have hboth := hheld.and (AllSteps.of_invariant (D := fun w _ => Inv w) (fun _ _ _ h _ => h) hinv)
  exact hboth.imp fun w l h => unassigned_of_held h.2 h.1

/-- A session ends on its own and is torn down twice. Between the two teardowns its pid goes to
another process. -/
def recycledRun : List Label :=
  [.fork 100 none true, .setLeader 100 true, .exit 0,
   .terminate, .step false, .step false, .step false, .step false, .step false, .step false,
   .step false, .step false, .step false, .release,
   .fork 100 none true, .terminate, .step false]

/-- The second `terminate` signals the other process. -/
theorem recycled_signalled :
    ¬ AllStates next Spared (KillRun.init .default none) recycledRun := by
  intro h
  have hrun : (run next (KillRun.init .default none) recycledRun).map
      (fun w => (w.kernel.delivered, w.leaders, w.children)) =
        some ([{ process := 1, group := 1, signal := .term }], [0], [0]) := by
    decide +kernel
  obtain ⟨w, hspared, heq⟩ := h.observe hrun
  simp only [Prod.mk.injEq] at heq
  obtain ⟨hdelivered, hleaders, hchildren⟩ := heq
  have hown := hspared { process := 1, group := 1, signal := .term } (by simp [hdelivered])
  simp [Own, hleaders, hchildren] at hown

end KillRun

end OpenabPty
