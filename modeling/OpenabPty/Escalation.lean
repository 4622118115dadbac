import OpenabPty.KillDomain
import Mathlib.Data.List.Basic

/-!
# The escalation of a teardown (`terminate` in `killdomain.rs`)

`terminate` on a table of processes that react to signals each in its own way, and that may exit
by themselves while it sleeps between two polls. No process is started or changes its group.
-/

namespace OpenabPty

/-- `TIER1_POLL_STEP`. -/
def tier1PollStep : Duration := .fromMillis 25

/-- `TIER1_KILL_WAIT`. -/
def tier1KillWait : Duration := .fromMillis 500

/-- One sleep of the poll: how much longer than asked it takes, and who exits meanwhile. -/
structure Nap where
  oversleep : Duration
  exits : List Nat

/-- What a teardown cannot decide: whether a signal ends a process it is delivered to, and how its
sleeps go. -/
structure Surroundings where
  ends : Nat → Signal → Bool
  nap : Nat → Nap

/-- The processes, the clock and the number of sleeps so far. -/
structure KillTable where
  kernel : Kernel
  now : Instant
  naps : Nat

/-- The processes that `exits` names exit. -/
def Kernel.mark (k : Kernel) (exits : Nat → Bool) : Kernel :=
  { k with
    processes := k.processes.mapIdx fun i q => if exits i then { q with exited := true } else q }

/-- A call that signals: the processes that get a signal which ends them exit. -/
def Surroundings.call (env : Surroundings) (signals : Kernel → Kernel) (k : Kernel) : Kernel :=
  let signalled := signals k
  let delivered := signalled.delivered.drop k.delivered.length
  signalled.mark fun i => delivered.any fun e => e.process == i && env.ends i e.signal

/-- A sleep of `TIER1_POLL_STEP`. -/
def Surroundings.sleep (env : Surroundings) (t : KillTable) : KillTable :=
  let nap := env.nap t.naps
  { kernel := t.kernel.mark (nap.exits.contains ·)
    now := t.now + tier1PollStep + nap.oversleep
    naps := t.naps + 1 }

theorem Surroundings.now_lt_sleep (env : Surroundings) (t : KillTable) :
    t.now < (env.sleep t).now := by
  have hstep : 0 < tier1PollStep := by decide
  exact Nat.lt_of_lt_of_le (Nat.lt_add_of_pos_right hstep) (Nat.le_add_right _ _)

/-- What `wait_until_drained` polls. -/
def SessionKillDomain.alive (d : SessionKillDomain) (k : Kernel) : Bool :=
  d.tracked.any (fun child => k.pidAlive child.pid) || d.leaderPgid.any k.groupAlive

namespace Surroundings

/-- `signal_tracked`. -/
def signalTracked (env : Surroundings) (d : SessionKillDomain) (signal : Signal) (k : Kernel) :
    Kernel :=
  d.tracked.foldl (fun k child => env.call (SessionKillDomain.signalChild · child signal) k) k

/-- The two passes of one signal. -/
def signalAll (env : Surroundings) (d : SessionKillDomain) (signal : Signal) (k : Kernel) :
    Kernel :=
  env.signalTracked d signal (env.call (d.signalLeader · signal) k)

/-- `wait_until_drained`, up to a deadline. -/
def waitUntilDrained (env : Surroundings) (d : SessionKillDomain) (deadline : Instant)
    (t : KillTable) : KillTable × Bool :=
  let t := { t with kernel := d.reapTracked t.kernel }
  if !d.alive t.kernel then (t, true)
  else if _h : t.now ≥ deadline then (t, false)
  else waitUntilDrained env d deadline (env.sleep t)
termination_by deadline - t.now
decreasing_by
  exact Nat.sub_lt_sub_left (Nat.lt_of_not_le _h) (env.now_lt_sleep _)

/-- `terminate_tier1`. -/
def terminateTier1 (env : Surroundings) (d : SessionKillDomain) (grace : Duration)
    (t : KillTable) : KillTable × List Pid :=
  let t := { t with kernel := env.signalAll d .term t.kernel }
  let (t, drained) := env.waitUntilDrained d (t.now + grace) t
  let t :=
    if drained then t
    else
      let t := { t with kernel := env.signalAll d .kill t.kernel }
      (env.waitUntilDrained d (t.now + tier1KillWait) t).1
  let t := { t with kernel := d.reapTracked t.kernel }
  (t, d.survivors t.kernel)

/-- `TeardownOutcome`, without the name of the tier. -/
structure TeardownOutcome where
  survivors : List Pid
  elapsedMs : Nat

/-- `terminate`, with the leak counter of the runtime. -/
def terminate (env : Surroundings) (d : SessionKillDomain) (grace : Duration) (t : KillTable)
    (leaked : UInt64) : KillTable × TeardownOutcome × UInt64 :=
  let started := t.now
  let (t, survivors) := env.terminateTier1 d grace t
  let outcome := { survivors, elapsedMs := Duration.asMillis (t.now - started) }
  (t, outcome,
    if survivors.isEmpty then leaked else leaked + UInt64.ofNat survivors.length)

end Surroundings

/-! ## What becomes of a process -/

/-- A process later on: it is the same process, and what has ended stays ended. -/
structure Process.Later (mayEnd : Prop) (q q' : Process) : Prop where
  pid : q'.pid = q.pid
  group : q'.group = q.group
  ours : q'.ours = q.ours
  exited : q.exited = true → q'.exited = true
  reaped : q.reaped = true → q'.reaped = true
  sound : (q.reaped = true → q.exited = true) → q'.reaped = true → q'.exited = true
  spared : q'.exited = true → q.exited = true ∨ mayEnd

theorem Process.Later.refl (mayEnd : Prop) (q : Process) : q.Later mayEnd q :=
  ⟨rfl, rfl, rfl, id, id, fun h hr => h hr, .inl⟩

theorem Process.Later.trans {mayEnd : Prop} {q q' q'' : Process} (h : q.Later mayEnd q')
    (h' : q'.Later mayEnd q'') : q.Later mayEnd q'' where
  pid := h'.pid.trans h.pid
  group := h'.group.trans h.group
  ours := h'.ours.trans h.ours
  exited hx := h'.exited (h.exited hx)
  reaped hr := h'.reaped (h.reaped hr)
  sound hs hr := h'.sound (h.sound hs) hr
  spared hx := by
    rcases h'.spared hx with hx | hend
    · exact h.spared hx
    · exact .inr hend

/-- A process table later on. -/
structure Kernel.Later (mayEnd : Nat → Prop) (k k' : Kernel) : Prop where
  length : k'.processes.length = k.processes.length
  process : ∀ i (q q' : Process), k.processes[i]? = some q → k'.processes[i]? = some q' →
    q.Later (mayEnd i) q'

namespace Kernel

variable {mayEnd : Nat → Prop} {k k' k'' : Kernel}

theorem Later.refl (mayEnd : Nat → Prop) (k : Kernel) : k.Later mayEnd k := by
  refine ⟨rfl, fun i q q' h h' => ?_⟩
  obtain rfl := Option.some.inj (h.symm.trans h')
  exact .refl _ _

/-- Every process is there later on. -/
theorem Later.exists (h : k.Later mayEnd k') {i : Nat} {q : Process}
    (hq : k.processes[i]? = some q) :
    ∃ q', k'.processes[i]? = some q' ∧ q.Later (mayEnd i) q' := by
  have hlt : i < k'.processes.length := by
    rw [h.length]
    exact (List.getElem?_eq_some_iff.mp hq).1
  have hq' := List.getElem?_eq_getElem hlt
  exact ⟨_, hq', h.process i q _ hq hq'⟩

theorem Later.exists_before (h : k.Later mayEnd k') {i : Nat} {q' : Process}
    (hq' : k'.processes[i]? = some q') :
    ∃ q, k.processes[i]? = some q ∧ q.Later (mayEnd i) q' := by
  have hlt : i < k.processes.length := by
    rw [← h.length]
    exact (List.getElem?_eq_some_iff.mp hq').1
  have hq := List.getElem?_eq_getElem hlt
  exact ⟨_, hq, h.process i _ q' hq hq'⟩

theorem Later.trans (h : k.Later mayEnd k') (h' : k'.Later mayEnd k'') : k.Later mayEnd k'' := by
  refine ⟨h'.length.trans h.length, fun i q q'' hq hq'' => ?_⟩
  obtain ⟨q', hq', hlater⟩ := h.exists hq
  exact hlater.trans (h'.process i q' q'' hq' hq'')

/-- A group has one number for ever. -/
theorem Later.pgid (h : k.Later mayEnd k') {q q' : Process} (hgroup : q'.group = q.group) :
    k'.pgid q' = k.pgid q := by
  unfold Kernel.pgid
  rw [hgroup]
  cases hq : k.processes[q.group]? with
  | none =>
    have hnone : k'.processes[q.group]? = none := by
      rw [List.getElem?_eq_none_iff, h.length]
      exact List.getElem?_eq_none_iff.mp hq
    rw [hnone]
  | some founder =>
    obtain ⟨founder', hq', hlater⟩ := h.exists hq
    rw [hq', Option.map_some, Option.map_some, hlater.pid]

/-- A change of the processes one by one. -/
theorem later_mapIdx (f : Nat → Process → Process)
    (hf : ∀ i (q : Process), k.processes[i]? = some q → q.Later (mayEnd i) (f i q))
    (hk' : k'.processes = k.processes.mapIdx f) : k.Later mayEnd k' := by
  refine ⟨by rw [hk', List.length_mapIdx], fun i q q' hq hq' => ?_⟩
  rw [hk', List.getElem?_mapIdx, hq] at hq'
  obtain rfl := Option.some.inj hq'
  exact hf i q hq

theorem later_mark {exits : Nat → Bool} (h : ∀ i, exits i = true → mayEnd i) :
    k.Later mayEnd (k.mark exits) := by
  refine later_mapIdx _ (fun i q hq => ?_) rfl
  split_ifs with hexit
  · exact ⟨rfl, rfl, rfl, fun _ => rfl, id, fun _ _ => rfl, fun _ => .inr (h i hexit)⟩
  · exact .refl _ _

theorem deliver_nobody (signal : Signal) : k.deliver (fun _ _ => false) signal = k := by
  simp [deliver]

end Kernel

/-! ## What a call does -/

section Call

variable {env : Surroundings} {d : SessionKillDomain} {k : Kernel}

/-- What a teardown may do to a process: it may end, by a signal or by itself. -/
def Surroundings.MayEnd (env : Surroundings) (i : Nat) : Prop :=
  (∃ signal, env.ends i signal = true) ∨ ∃ n, i ∈ (env.nap n).exits

/-- A signal ends the running processes it names and that it ends. -/
theorem Surroundings.call_deliver {signals : Kernel → Kernel} {named : Nat → Process → Bool}
    {signal : Signal} (h : signals k = k.deliver named signal) :
    (env.call signals k).processes = k.processes.mapIdx fun i q =>
      if !q.exited && named i q && env.ends i signal then { q with exited := true } else q := by
  have hstruck : ∀ i q, k.processes[i]? = some q →
      ((k.deliver named signal).delivered.drop k.delivered.length).any
        (fun e => e.process == i && env.ends i e.signal) =
        (!q.exited && named i q && env.ends i signal) := by
    intro i q hq
    rw [Bool.eq_iff_iff]
    simp only [Kernel.deliver, List.drop_left, List.any_eq_true, List.mem_map, List.mem_filter,
      List.mem_zipIdx_iff_getElem?, Prod.exists, Bool.and_eq_true, beq_iff_eq]
    constructor
    · rintro ⟨e, ⟨q', j, ⟨hj, hrunning, hnamed⟩, rfl⟩, rfl, hends⟩
      obtain rfl := Option.some.inj (hq.symm.trans hj)
      exact ⟨⟨hrunning, hnamed⟩, hends⟩
    · rintro ⟨⟨hrunning, hnamed⟩, hends⟩
      exact ⟨_, ⟨q, i, ⟨hq, hrunning, hnamed⟩, rfl⟩, rfl, hends⟩
  rw [call, h, Kernel.mark]
  refine List.mapIdx_eq_mapIdx_iff.mpr fun i hi => ?_
  rw [hstruck i _ (List.getElem?_eq_getElem hi)]

/-- What a call that sends one signal leaves behind. -/
theorem Surroundings.later_call {signals : Kernel → Kernel} {named : Nat → Process → Bool}
    {signal : Signal} (h : signals k = k.deliver named signal) :
    k.Later env.MayEnd (env.call signals k) := by
  refine Kernel.later_mapIdx _ (fun i q hq => ?_) (env.call_deliver h)
  split_ifs with hends
  · simp only [Bool.and_eq_true] at hends
    exact ⟨rfl, rfl, rfl, fun _ => rfl, id, fun _ _ => rfl, fun _ => .inr (.inl ⟨signal, hends.2⟩)⟩
  · exact .refl _ _

/-- A named process that the signal ends is not running after the call. -/
theorem Surroundings.exited_call {signals : Kernel → Kernel} {named : Nat → Process → Bool}
    {signal : Signal} (h : signals k = k.deliver named signal) {i : Nat} {q q' : Process}
    (hq : k.processes[i]? = some q) (hq' : (env.call signals k).processes[i]? = some q')
    (hnamed : named i q = true) (hends : env.ends i signal = true) : q'.exited = true := by
  rw [env.call_deliver h, List.getElem?_mapIdx, hq] at hq'
  obtain rfl := Option.some.inj hq'
  cases hexited : q.exited <;> simp [hexited, hnamed, hends]

namespace SessionKillDomain

/-- Whom the signal to a child names. -/
def namesChild (child : TrackedChild) (i : Nat) (q : Process) : Bool :=
  match child.pidfd with
  | some pidfd => i = pidfd
  | none => q.pid = child.pid

theorem signalChild_eq (child : TrackedChild) (signal : Signal) :
    signalChild k child signal = k.deliver (namesChild child) signal := by
  unfold signalChild namesChild
  cases child.pidfd <;> rfl

/-- Whom the signal to the leader's group names. -/
def namesMember (d : SessionKillDomain) (k : Kernel) (q : Process) : Bool :=
  d.leaderPgid.any fun pgid => k.pgid q = some pgid

theorem signalLeader_eq (d : SessionKillDomain) (signal : Signal) :
    d.signalLeader k signal = k.deliver (fun _ q => d.namesMember k q) signal := by
  unfold signalLeader namesMember
  cases d.leaderPgid with
  | none => exact (Kernel.deliver_nobody signal).symm
  | some pgid => rfl

theorem later_signalTracked (env : Surroundings) (signal : Signal) :
    ∀ (tracked : List TrackedChild) (k : Kernel), k.Later env.MayEnd
      (tracked.foldl (fun k child => env.call (signalChild · child signal) k) k) := by
  intro tracked
  induction tracked with
  | nil => exact fun k => .refl _ k
  | cons child rest ih =>
    intro k
    exact (env.later_call (signalChild_eq child signal)).trans (ih _)

theorem later_signalAll (env : Surroundings) (d : SessionKillDomain) (signal : Signal)
    (k : Kernel) : k.Later env.MayEnd (env.signalAll d signal k) :=
  (env.later_call (d.signalLeader_eq signal)).trans (later_signalTracked env signal d.tracked _)

/-- What reaping does to a process. -/
theorem getElem?_reapTracked (d : SessionKillDomain) (k : Kernel) (i : Nat) :
    (d.reapTracked k).processes[i]? = k.processes[i]?.map fun q =>
      if q.pid ∈ d.tracked.map (·.pid) ∧ q.ours = true ∧ q.exited = true then
        { q with reaped := true }
      else q := by
  rw [reapTracked_eq, List.getElem?_map]

theorem later_reapTracked (env : Surroundings) (d : SessionKillDomain) (k : Kernel) :
    k.Later env.MayEnd (d.reapTracked k) := by
  refine ⟨by rw [reapTracked_eq, List.length_map], fun i q q' hq hq' => ?_⟩
  rw [getElem?_reapTracked, hq, Option.map_some] at hq'
  obtain rfl := Option.some.inj hq'
  split_ifs with hreaped
  · exact ⟨rfl, rfl, rfl, id, fun _ => rfl, fun _ _ => hreaped.2.2, .inl⟩
  · exact .refl _ _

/-- The signals to the children end whomever one of them names. -/
theorem exited_signalTracked {signal : Signal} {i : Nat} (hends : env.ends i signal = true) :
    ∀ (tracked : List TrackedChild) (k : Kernel) (q q' : Process), k.processes[i]? = some q →
      (tracked.foldl (fun k child => env.call (signalChild · child signal) k) k).processes[i]? =
        some q' →
      (∃ child ∈ tracked, namesChild child i q = true) → q'.exited = true := by
  intro tracked
  induction tracked with
  | nil =>
    intro k q q' _ _ ⟨child, hchild, _⟩
    cases hchild
  | cons child rest ih =>
    intro k q q' hq hq' ⟨named, hmem, hnamed⟩
    have hcall : k.Later env.MayEnd (env.call (signalChild · child signal) k) :=
      env.later_call (signalChild_eq child signal)
    obtain ⟨q₁, hq₁, hlater⟩ := hcall.exists hq
    rcases List.mem_cons.mp hmem with rfl | hrest
    · have hexited := env.exited_call (signalChild_eq named signal) hq hq₁ hnamed hends
      exact ((later_signalTracked env signal rest _).process i q₁ q' hq₁ hq').exited hexited
    · refine ih _ q₁ q' hq₁ hq' ⟨named, hrest, ?_⟩
      rwa [namesChild, hlater.pid]

/-- Reaping collects every child of ours that has exited. -/
theorem reaped_reapTracked {i : Nat} {q q' : Process} (hq : k.processes[i]? = some q)
    (hq' : (d.reapTracked k).processes[i]? = some q') (hpid : q.pid ∈ d.tracked.map (·.pid))
    (hours : q.ours = true) (hexited : q.exited = true) : q'.reaped = true := by
  rw [getElem?_reapTracked, hq, Option.map_some, if_pos ⟨hpid, hours, hexited⟩] at hq'
  rw [← Option.some.inj hq']

/-! ## Waiting -/

theorem later_sleep (env : Surroundings) (t : KillTable) :
    t.kernel.Later env.MayEnd (env.sleep t).kernel := by
  refine Kernel.later_mark fun i hi => .inr ⟨t.naps, ?_⟩
  simpa using hi

theorem later_waitUntilDrained (env : Surroundings) (d : SessionKillDomain) (deadline : Instant)
    (t : KillTable) :
    t.kernel.Later env.MayEnd (env.waitUntilDrained d deadline t).1.kernel := by
  fun_induction env.waitUntilDrained d deadline t with
  | case1 t reaped hdrained => exact later_reapTracked env d t.kernel
  | case2 t reaped halive hlate => exact later_reapTracked env d t.kernel
  | case3 t reaped halive hearly ih =>
    exact ((later_reapTracked env d t.kernel).trans (later_sleep env reaped)).trans ih

/-- If the poll ends in time, it has seen nobody alive. -/
theorem not_alive_of_drained {deadline : Instant} {t : KillTable}
    (h : (env.waitUntilDrained d deadline t).2 = true) :
    d.alive (env.waitUntilDrained d deadline t).1.kernel = false := by
  fun_induction env.waitUntilDrained d deadline t with
  | case1 t reaped hdrained => simpa using hdrained
  | case2 t reaped halive hlate => cases h
  | case3 t reaped halive hearly ih => exact ih h

/-! ## The table before and after -/

/-- A table that a teardown can rely on: only exited processes are reaped, a tracked process that
is not reaped is a child of the runtime, and the pidfd of a tracked child is that of the process
with its pid. -/
structure Orderly (d : SessionKillDomain) (k : Kernel) : Prop where
  reaped : ∀ q ∈ k.processes, q.reaped = true → q.exited = true
  ours : ∀ q ∈ k.processes, q.pid ∈ d.tracked.map (·.pid) → q.reaped = false → q.ours = true
  pidfd : ∀ child ∈ d.tracked, ∀ i q, k.processes[i]? = some q → q.pid = child.pid →
    q.reaped = false → ∀ pidfd ∈ child.pidfd, pidfd = i

theorem Orderly.later {mayEnd : Nat → Prop} {k' : Kernel} (h : d.Orderly k)
    (hlater : k.Later mayEnd k') : d.Orderly k' := by
  have hbefore : ∀ q q' : Process, ∀ i, q.Later (mayEnd i) q' → q'.reaped = false →
      q.reaped = false := by
    intro q q' i hq hreaped
    by_contra hbefore
    simp [hq.reaped (by simpa using hbefore)] at hreaped
  refine ⟨?_, ?_, ?_⟩
  · intro q' hq' hreaped
    obtain ⟨i, hi⟩ := List.mem_iff_getElem?.mp hq'
    obtain ⟨q, hq, hl⟩ := hlater.exists_before hi
    exact hl.sound (h.reaped q (List.mem_of_getElem? hq)) hreaped
  · intro q' hq' hmem hreaped
    obtain ⟨i, hi⟩ := List.mem_iff_getElem?.mp hq'
    obtain ⟨q, hq, hl⟩ := hlater.exists_before hi
    rw [hl.ours]
    exact h.ours q (List.mem_of_getElem? hq) (hl.pid ▸ hmem) (hbefore q q' i hl hreaped)
  · intro child hchild i q' hq' hpid hreaped pidfd hpidfd
    obtain ⟨q, hq, hl⟩ := hlater.exists_before hq'
    exact h.pidfd child hchild i q hq (hl.pid ▸ hpid) (hbefore q q' i hl hreaped) pidfd hpidfd

/-- Both passes together end a tracked child or a member of the leader's group that the signal
ends. -/
theorem exited_signalAll {signal : Signal} {i : Nat} {q q' : Process} (h : d.Orderly k)
    (hends : env.ends i signal = true) (hq : k.processes[i]? = some q)
    (hq' : (env.signalAll d signal k).processes[i]? = some q')
    (hreached : q.pid ∈ d.tracked.map (·.pid) ∨ d.namesMember k q = true) :
    q'.exited = true := by
  have hcall : k.Later env.MayEnd (env.call (d.signalLeader · signal) k) :=
    env.later_call (d.signalLeader_eq signal)
  obtain ⟨q₁, hq₁, hlater⟩ := hcall.exists hq
  have htracked := later_signalTracked env signal d.tracked (env.call (d.signalLeader · signal) k)
  rcases hreached with hpid | hmember
  · cases hreaped : q.reaped with
    | true =>
      have hexited := h.reaped q (List.mem_of_getElem? hq) hreaped
      exact (htracked.process i q₁ q' hq₁ hq').exited (hlater.exited hexited)
    | false =>
      obtain ⟨child, hchild, hpid⟩ := List.mem_map.mp hpid
      refine exited_signalTracked hends d.tracked _ q₁ q' hq₁ hq' ⟨child, hchild, ?_⟩
      have hholder := h.pidfd child hchild i q hq hpid.symm hreaped
      unfold namesChild
      cases hfd : child.pidfd with
      | none => simp [hlater.pid, hpid]
      | some pidfd => simp [hholder pidfd hfd]
  · have hexited := env.exited_call (d.signalLeader_eq signal) hq hq₁ hmember hends
    exact (htracked.process i q₁ q' hq₁ hq').exited hexited

/-- Nobody that the poll looks at is left: the tracked children are reaped, and the members of the
leader's group have exited. -/
theorem ended_of_not_alive {q : Process} (hq : q ∈ k.processes) (h : d.alive k = false) :
    (q.pid ∈ d.tracked.map (·.pid) → q.reaped = true) ∧
      (d.namesMember k q = true → q.exited = true) := by
  simp only [alive, Bool.or_eq_false_iff, List.any_eq_false] at h
  obtain ⟨hpids, hgroup⟩ := h
  constructor
  · intro hpid
    obtain ⟨child, hchild, hpid⟩ := List.mem_map.mp hpid
    by_contra hreaped
    refine hpids child hchild ?_
    rw [Kernel.pidAlive, List.any_eq_true]
    exact ⟨q, hq, by simp [hpid, hreaped]⟩
  · intro hmember
    unfold namesMember at hmember
    cases hleader : d.leaderPgid with
    | none => simp [hleader] at hmember
    | some pgid =>
      simp only [hleader, Option.any_some, decide_eq_true_eq] at hmember hgroup
      by_contra hexited
      have halive : k.groupAlive pgid = true := by
        rw [Kernel.groupAlive, List.any_eq_true]
        exact ⟨q, hq, by simp [hmember, hexited]⟩
      simp [halive] at hgroup

theorem namesMember_later {mayEnd : Nat → Prop} {k' : Kernel} (h : k.Later mayEnd k')
    {q q' : Process} (hgroup : q'.group = q.group) : d.namesMember k' q' = d.namesMember k q := by
  unfold namesMember
  rw [h.pgid hgroup]

/-! ## The whole escalation -/

/-- The last stage before the final reap: the poll after `SIGTERM` has seen nobody, or `SIGKILL`
was sent to everybody. -/
structure Escalated (env : Surroundings) (d : SessionKillDomain) (k k' : Kernel) : Prop where
  later : k.Later env.MayEnd k'
  ended : ∀ i q, k'.processes[i]? = some q → env.ends i .kill = true →
    (q.pid ∈ d.tracked.map (·.pid) ∨ d.namesMember k' q = true) → q.exited = true

theorem escalated_of_not_alive (env : Surroundings) (h : d.Orderly k) (halive : d.alive k = false) :
    d.Escalated env k k := by
  refine ⟨.refl _ k, fun i q hq _ hreached => ?_⟩
  obtain ⟨htracked, hmember⟩ := ended_of_not_alive (List.mem_of_getElem? hq) halive
  rcases hreached with hpid | hgroup
  · exact h.reaped q (List.mem_of_getElem? hq) (htracked hpid)
  · exact hmember hgroup

theorem escalated_signalAll (h : d.Orderly k) :
    d.Escalated env k (env.signalAll d .kill k) := by
  have hlater := later_signalAll env d .kill k
  refine ⟨hlater, fun i q' hq' hends hreached => ?_⟩
  obtain ⟨q, hq, hl⟩ := hlater.exists_before hq'
  refine exited_signalAll h hends hq hq' ?_
  rwa [hl.pid, namesMember_later hlater hl.group] at hreached

/-- What has ended stays ended. -/
theorem Escalated.later_right {k₁ k₂ k₃ : Kernel} (h : d.Escalated env k₁ k₂)
    (hlater : k₂.Later env.MayEnd k₃) : d.Escalated env k₁ k₃ := by
  refine ⟨h.later.trans hlater, fun i q' hq' hends hreached => ?_⟩
  obtain ⟨q, hq, hl⟩ := hlater.exists_before hq'
  rw [hl.pid, namesMember_later hlater hl.group] at hreached
  exact hl.exited (h.ended i q hq hends hreached)

theorem Escalated.later_left {k₁ k₂ k₃ : Kernel} (hlater : k₁.Later env.MayEnd k₂)
    (h : d.Escalated env k₂ k₃) : d.Escalated env k₁ k₃ :=
  ⟨hlater.trans h.later, h.ended⟩

/-- `terminate_tier1` is an escalation and a last reap. -/
theorem terminateTier1_kernel {t : KillTable} (env : Surroundings) (h : d.Orderly t.kernel)
    (grace : Duration) :
    ∃ k, d.Escalated env t.kernel k ∧
      (env.terminateTier1 d grace t).1.kernel = d.reapTracked k := by
  have hterm := later_signalAll env d .term t.kernel
  have hpolled := later_waitUntilDrained env d (t.now + grace)
    { t with kernel := env.signalAll d .term t.kernel }
  have hbefore := hterm.trans hpolled
  have horderly := h.later hbefore
  unfold Surroundings.terminateTier1
  dsimp only
  split
  · rename_i hdrained
    have hgone := escalated_of_not_alive env horderly (not_alive_of_drained hdrained)
    exact ⟨_, hgone.later_left hbefore, rfl⟩
  · have hkilled := (escalated_signalAll horderly).later_left hbefore
    refine ⟨_, ?_, rfl⟩
    exact hkilled.later_right (later_waitUntilDrained env d _ { kernel := _, now := _, naps := _ })

/-- After `terminate_tier1` whatever `SIGKILL` ends has exited, and is reaped if it was tracked. -/
theorem ended_terminateTier1 (env : Surroundings) {t : KillTable} (h : d.Orderly t.kernel)
    (grace : Duration) :
    t.kernel.Later env.MayEnd (env.terminateTier1 d grace t).1.kernel ∧
    ∀ i q, (env.terminateTier1 d grace t).1.kernel.processes[i]? = some q →
      env.ends i .kill = true →
      (q.pid ∈ d.tracked.map (·.pid) → q.exited = true ∧ q.reaped = true) ∧
      (d.namesMember (env.terminateTier1 d grace t).1.kernel q = true → q.exited = true) := by
  obtain ⟨k, hk, hfinal⟩ := terminateTier1_kernel env h grace
  have hreap : k.Later env.MayEnd (d.reapTracked k) := later_reapTracked env d k
  have hall := hk.later_right hreap
  rw [hfinal]
  refine ⟨hall.later, fun i q' hq' hends => ⟨fun hpid => ?_, fun hmember => ?_⟩⟩
  · have hexited := hall.ended i q' hq' hends (.inl hpid)
    refine ⟨hexited, ?_⟩
    obtain ⟨q, hq, hl⟩ := hreap.exists_before hq'
    rw [hl.pid] at hpid
    have hbefore := hk.ended i q hq hends (.inl hpid)
    have horderly := h.later hk.later
    cases hreaped : q.reaped with
    | true => exact hl.reaped hreaped
    | false =>
      have hours := horderly.ours q (List.mem_of_getElem? hq) hpid hreaped
      exact reaped_reapTracked hq hq' hpid hours hbefore
  · exact hall.ended i q' hq' hends (.inr hmember)

/-- The survivors, as the pids and the number of the group. -/
theorem survivors_eq (d : SessionKillDomain) (k : Kernel) :
    d.survivors k = (d.tracked.map (·.pid)).filter k.pidAlive ++
      (d.leaderPgid.filter fun pgid => k.groupAlive pgid &&
        !((d.tracked.map (·.pid)).filter k.pidAlive).contains pgid).toList := by
  have hpids : (d.tracked.filter fun child => k.pidAlive child.pid).map (·.pid) =
      (d.tracked.map (·.pid)).filter k.pidAlive := by
    rw [List.filter_map]
    rfl
  rw [survivors, hpids]
  cases d.leaderPgid with
  | none => simp
  | some pgid =>
    simp only [Option.filter_some]
    split_ifs <;> simp

/-- The counter grows by the number of survivors, also where there is none. -/
theorem leaked_eq (leaked : UInt64) (survivors : List Pid) :
    (if survivors.isEmpty then leaked else leaked + UInt64.ofNat survivors.length) =
      leaked + UInt64.ofNat survivors.length := by
  cases survivors <;> simp

/-- Nobody survives where no tracked pid is alive and no member of the group runs. -/
theorem survivors_eq_nil (htracked : ∀ q ∈ k.processes, q.pid ∈ d.tracked.map (·.pid) →
      q.reaped = true)
    (hmember : ∀ q ∈ k.processes, d.namesMember k q = true → q.exited = true) :
    d.survivors k = [] := by
  have hpids : (d.tracked.map (·.pid)).filter k.pidAlive = [] := by
    rw [List.filter_eq_nil_iff]
    intro pid hpid halive
    obtain ⟨q, hq, hholds⟩ := List.any_eq_true.mp halive
    simp only [Bool.and_eq_true, Bool.not_eq_true', beq_iff_eq] at hholds
    simp [htracked q hq (hholds.2 ▸ hpid)] at hholds
  have hgroup : ∀ pgid ∈ d.leaderPgid, k.groupAlive pgid = false := by
    intro pgid hpgid
    by_contra halive
    obtain ⟨q, hq, hholds⟩ := List.any_eq_true.mp (Bool.not_eq_false _ ▸ halive)
    simp only [Bool.and_eq_true, Bool.not_eq_true', beq_iff_eq] at hholds
    have hnamed : d.namesMember k q = true := by
      rw [namesMember, Option.mem_def.mp hpgid]
      simp [hholds.2]
    simp [hmember q hq hnamed] at hholds
  rw [survivors_eq, hpids]
  cases hleader : d.leaderPgid with
  | none => rfl
  | some pgid => simp [hgroup pgid hleader]

/-- A teardown reports exactly what is left: the tracked pids that are not reaped, and the leader's
group if a member of it runs and its number is not among them; the leak counter grows by their
number. What `SIGKILL` ends does not survive, and what neither a signal ends nor exits by itself
does. If `SIGKILL` ends everybody, nobody is left. -/
theorem terminate_converges (env : Surroundings) (d : SessionKillDomain) (grace : Duration)
    (t : KillTable) (leaked : UInt64) (h : d.Orderly t.kernel) :
    ∃ t' outcome leaked', env.terminate d grace t leaked = (t', outcome, leaked') ∧
      (let pids := (d.tracked.map (·.pid)).filter t'.kernel.pidAlive
       outcome.survivors = pids ++
        (d.leaderPgid.filter fun pgid => t'.kernel.groupAlive pgid && !pids.contains pgid).toList) ∧
      leaked' = leaked + UInt64.ofNat outcome.survivors.length ∧
      t.kernel.Later env.MayEnd t'.kernel ∧
      (∀ i q, t'.kernel.processes[i]? = some q → env.ends i .kill = true →
        (q.pid ∈ d.tracked.map (·.pid) → q.exited = true ∧ q.reaped = true) ∧
        (d.namesMember t'.kernel q = true → q.exited = true)) ∧
      ((∀ i, env.ends i .kill = true) →
        outcome.survivors = [] ∧
        (∀ q ∈ t'.kernel.processes, q.pid ∈ d.tracked.map (·.pid) →
          q.exited = true ∧ q.reaped = true) ∧
        (∀ q ∈ t'.kernel.processes, d.namesMember t'.kernel q = true → q.exited = true)) := by
  obtain ⟨hlater, hended⟩ := ended_terminateTier1 env h grace
  refine ⟨_, _, _, rfl, survivors_eq d _, leaked_eq leaked _, hlater, hended, ?_⟩
  · intro hkill
    have hall : ∀ q ∈ (env.terminateTier1 d grace t).1.kernel.processes,
        (q.pid ∈ d.tracked.map (·.pid) → q.exited = true ∧ q.reaped = true) ∧
        (d.namesMember (env.terminateTier1 d grace t).1.kernel q = true → q.exited = true) := by
      intro q hq
      obtain ⟨i, hi⟩ := List.mem_iff_getElem?.mp hq
      exact hended i q hi (hkill i)
    refine ⟨?_, fun q hq => (hall q hq).1, fun q hq => (hall q hq).2⟩
    exact survivors_eq_nil (fun q hq hpid => ((hall q hq).1 hpid).2) fun q hq => (hall q hq).2

/-- A session whose leader ends on `SIGTERM`, with a child that traps it, a member of the group
that was never tracked and traps it, too, and a zombie. -/
def trappingSession : SessionKillDomain :=
  { leaderPgid := some 100
    tracked := [⟨100, some 0⟩, ⟨101, none⟩, ⟨103, none⟩] }

def trappingTable : KillTable :=
  { kernel :=
      { processes := [⟨100, 0, true, false, false⟩, ⟨101, 1, true, false, false⟩,
          ⟨102, 0, false, false, false⟩, ⟨103, 0, true, true, false⟩]
        delivered := [] }
    now := 0
    naps := 0 }

def trapping : Surroundings where
  ends i signal := signal = .kill || i = 0
  nap _ := { oversleep := 0, exits := [] }

theorem terminate_converges_trapping :
    ∃ t' outcome leaked', trapping.terminate trappingSession (.fromSecs 5) trappingTable 0 =
      (t', outcome, leaked') ∧ outcome.survivors = [] := by
  have horderly : trappingSession.Orderly trappingTable.kernel := by
    refine ⟨by decide, by decide, ?_⟩
    intro child hchild i q hq hpid hreaped pidfd hpidfd
    simp only [trappingSession, List.mem_cons, List.not_mem_nil, or_false] at hchild
    rcases hchild with rfl | rfl | rfl
    · obtain rfl := Option.some.inj hpidfd
      match i, hq with
      | 0, _ => rfl
      | 1, hq => simp [trappingTable] at hq; simp [← hq] at hpid
      | 2, hq => simp [trappingTable] at hq; simp [← hq] at hpid
      | 3, hq => simp [trappingTable] at hq; simp [← hq] at hpid
    · cases hpidfd
    · cases hpidfd
  obtain ⟨t', outcome, leaked', heq, -, -, -, -, hall⟩ :=
    terminate_converges trapping trappingSession (.fromSecs 5) trappingTable 0 horderly
  exact ⟨t', outcome, leaked', heq, (hall fun i => by simp [trapping]).1⟩

end SessionKillDomain

end Call

end OpenabPty
