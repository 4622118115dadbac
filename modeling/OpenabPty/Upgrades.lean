import OpenabPty.Basic
import OpenabPty.Core.Bursts
import OpenabPty.Core.Recency
import OpenabPty.Core.Trace
import Mathlib.Algebra.Order.Group.Nat

/-!
# Failed upgrades (`UpgradeFailureLimiter` in `server.rs`)

The failures of each source are counted in a window, and a source that fails too often is banned
for a while. The map is bounded; it forgets the sources seen least recently, but for those under a
ban.
-/

namespace OpenabPty

/-- `MAX_TRACKED_SOURCES`. -/
def maxTrackedSources : Nat := 4096

/-- `UPGRADE_FAILURE_LIMIT`. -/
def upgradeFailureLimit : UInt32 := 5

/-- `UPGRADE_FAILURE_WINDOW`. -/
def upgradeFailureWindow : Duration := .fromSecs 60

/-- `UPGRADE_FAILURE_BAN`. -/
def upgradeFailureBan : Duration := .fromSecs 60

/-- `IpAddr`. -/
inductive IpAddr where
  | v4 (bits : BitVec 32)
  | v6 (bits : BitVec 128)
  deriving DecidableEq, Repr

/-- `FailureWindow`. -/
structure FailureWindow where
  windowStart : Instant
  failures : Nat
  bannedUntil : Option Instant
  lastSeen : Instant
  deriving DecidableEq, Repr

namespace FailureWindow

/-- The entry is under a ban. -/
def banned (entry : FailureWindow) (now : Instant) : Bool :=
  entry.bannedUntil.any fun deadline => now < deadline

/-- What `record_failure_at` inserts for a new source. -/
def fresh (now : Instant) : FailureWindow :=
  { windowStart := now, failures := 0, bannedUntil := none, lastSeen := now }

/-- The window is over: another one begins. -/
def roll (window : Duration) (entry : FailureWindow) (now : Instant) : FailureWindow :=
  if now - entry.windowStart ≥ window then { entry with windowStart := now, failures := 0 }
  else entry

/-- What `record_failure_at` does with the entry of the source. -/
def count (limit : UInt32) (window ban : Duration) (entry : FailureWindow) (now : Instant) :
    FailureWindow × Bool :=
  let entry := { entry with lastSeen := now }.roll window now
  let failures := min (entry.failures + 1) (2 ^ 32 - 1)
  if failures ≥ limit.toNat then
    ({ entry with failures := 0, windowStart := now, bannedUntil := some (now + ban) }, true)
  else ({ entry with failures }, false)

end FailureWindow

/-- `UpgradeFailureLimiter`; the map is in the order of its iteration. -/
structure UpgradeFailureLimiter where
  limit : UInt32
  window : Duration
  ban : Duration
  entries : List (IpAddr × FailureWindow)

namespace UpgradeFailureLimiter

/-- `UpgradeFailureLimiter::new`. -/
def new (limit : UInt32) (window ban : Duration) : UpgradeFailureLimiter :=
  { limit, window, ban, entries := [] }

/-- `UpgradeFailureLimiter::default`. -/
def default : UpgradeFailureLimiter :=
  new upgradeFailureLimit upgradeFailureWindow upgradeFailureBan

/-- `check_at`. -/
def checkAt (l : UpgradeFailureLimiter) (source : IpAddr) (now : Instant) :
    UpgradeFailureLimiter × Except Duration Unit :=
  match l.entries.lookup source with
  | none => (l, .ok ())
  | some entry =>
    ({ l with entries := Recency.put l.entries source { entry with lastSeen := now } },
     match entry.bannedUntil with
     | some deadline => if now < deadline then .error (deadline - now) else .ok ()
     | none => .ok ())

/-- `prune`. -/
def prune (entries : List (IpAddr × FailureWindow)) (now : Instant) (window ban : Duration) :
    List (IpAddr × FailureWindow) :=
  let stale := max window ban
  entries.filter fun e => e.2.banned now || now - e.2.lastSeen < stale

/-- The end of `record_failure_at`, once there is room for the source in `entries`. -/
def track (l : UpgradeFailureLimiter) (entries : List (IpAddr × FailureWindow)) (source : IpAddr)
    (now : Instant) : UpgradeFailureLimiter × Bool :=
  let counted := ((entries.lookup source).getD (.fresh now)).count l.limit l.window l.ban now
  ({ l with entries := Recency.put entries source counted.1 }, counted.2)

/-- `record_failure_at`. -/
def recordFailureAt (l : UpgradeFailureLimiter) (source : IpAddr) (now : Instant) :
    UpgradeFailureLimiter × Bool :=
  let entries := prune l.entries now l.window l.ban
  if entries.length ≥ maxTrackedSources ∧ (entries.lookup source).isNone then
    match Recency.leastBy (·.lastSeen) (entries.filter fun e => !e.2.banned now) with
    | some oldest => l.track (Recency.remove entries oldest.1) source now
    -- Every slot is under a ban: the source is not tracked.
    | none => ({ l with entries }, false)
  else l.track entries source now

/-- `on_success`. -/
def onSuccess (l : UpgradeFailureLimiter) (source : IpAddr) : UpgradeFailureLimiter :=
  { l with entries := Recency.remove l.entries source }

end UpgradeFailureLimiter

/-- A limiter at the time of its last call, with the failures that it counted, the newest first. -/
structure LimiterRun where
  limiter : UpgradeFailureLimiter
  now : Instant
  log : List (IpAddr × Instant)

namespace LimiterRun

/-- A call, or a change of the order in which the map is iterated over. -/
inductive Call where
  | check (source : IpAddr) (now : Instant)
  | recordFailure (source : IpAddr) (now : Instant)
  | onSuccess (source : IpAddr)
  | rehash (entries : List (IpAddr × FailureWindow))
  deriving DecidableEq

def init (limit : UInt32) (window ban : Duration) : LimiterRun :=
  { limiter := .new limit window ban, now := 0, log := [] }

/-- The next call; time does not go back. -/
def next (w : LimiterRun) : Call → Option LimiterRun
  | .check source now =>
    if now < w.now then none
    else some { w with limiter := (w.limiter.checkAt source now).1, now }
  | .recordFailure source now =>
    if now < w.now then none
    else
      let limiter := (w.limiter.recordFailureAt source now).1
      let tracked := (limiter.entries.lookup source).isSome
      some { limiter, now, log := if tracked then (source, now) :: w.log else w.log }
  | .onSuccess source => some { w with limiter := w.limiter.onSuccess source }
  | .rehash entries =>
    if entries.Perm w.limiter.entries then some { w with limiter := { w.limiter with entries } }
    else none

end LimiterRun

open Recency

namespace UpgradeFailureLimiter

variable {l : UpgradeFailureLimiter} {source x : IpAddr} {now : Instant}

theorem lookup_prune {entries : List (IpAddr × FailureWindow)} (h : Distinct entries)
    (window ban : Duration) :
    (prune entries now window ban).lookup x =
      (entries.lookup x).filter fun e => e.banned now || now - e.lastSeen < max window ban :=
  h.lookup_filter fun e => e.banned now || now - e.lastSeen < max window ban

theorem distinct_prune {entries : List (IpAddr × FailureWindow)} (h : Distinct entries)
    (window ban : Duration) : Distinct (prune entries now window ban) := h.filter _

/-- The map has no more entries than it may have, and none twice. -/
structure Tidy (l : UpgradeFailureLimiter) : Prop where
  distinct : Distinct l.entries
  bounded : l.entries.length ≤ maxTrackedSources

/-- What `record_failure_at` does to the map: it makes room and counts, or it tracks nothing. -/
theorem recordFailureAt_cases (h : l.Tidy) (source : IpAddr) (now : Instant) :
    (∃ entries, Roomier (·.banned now) (prune l.entries now l.window l.ban) entries ∧
      entries.lookup source = (prune l.entries now l.window l.ban).lookup source ∧
      ((entries.lookup source).isSome ∨ entries.length < maxTrackedSources) ∧
      l.recordFailureAt source now = l.track entries source now) ∨
    (prune l.entries now l.window l.ban).lookup source = none ∧
      l.recordFailureAt source now =
        ({ l with entries := prune l.entries now l.window l.ban }, false) := by
  have hdistinct : Distinct (prune l.entries now l.window l.ban) :=
    distinct_prune h.distinct l.window l.ban
  have hlength : (prune l.entries now l.window l.ban).length ≤ maxTrackedSources :=
    (List.length_filter_le _ _).trans h.bounded
  unfold recordFailureAt
  by_cases hfull : (prune l.entries now l.window l.ban).length ≥ maxTrackedSources ∧
      ((prune l.entries now l.window l.ban).lookup source).isNone
  · have habsent : (prune l.entries now l.window l.ban).lookup source = none :=
      Option.isNone_iff_eq_none.mp hfull.2
    simp only [if_pos hfull]
    cases hleast : leastBy (·.lastSeen)
        ((prune l.entries now l.window l.ban).filter fun e => !e.2.banned now) with
    | none => exact .inr ⟨habsent, rfl⟩
    | some oldest =>
      obtain ⟨hroomier, hlt⟩ := Roomier.forget hdistinct (·.banned now) hleast
      refine .inl ⟨_, hroomier, ?_, .inr (Nat.lt_of_lt_of_le hlt hlength), rfl⟩
      rw [lookup_remove, habsent]
      exact ite_self none
  · simp only [if_neg hfull]
    refine .inl ⟨_, .refl hdistinct, rfl, ?_, rfl⟩
    by_cases hpresent : ((prune l.entries now l.window l.ban).lookup source).isSome
    · exact .inl hpresent
    · refine .inr (Nat.lt_of_not_le fun hge => hfull ⟨hge, ?_⟩)
      exact Option.isNone_iff_eq_none.mpr (Option.not_isSome_iff_eq_none.mp hpresent)

theorem lookup_track (l : UpgradeFailureLimiter) (entries : List (IpAddr × FailureWindow))
    (source : IpAddr) (now : Instant) (x : IpAddr) :
    (l.track entries source now).1.entries.lookup x =
      if x = source then
        some (((entries.lookup source).getD (.fresh now)).count l.limit l.window l.ban now).1
      else entries.lookup x :=
  lookup_put

theorem Tidy.track {entries : List (IpAddr × FailureWindow)} (hdistinct : Distinct entries)
    (hlength : entries.length ≤ maxTrackedSources)
    (hroom : (entries.lookup source).isSome ∨ entries.length < maxTrackedSources) :
    (l.track entries source now).1.Tidy := by
  refine ⟨hdistinct.put, ?_⟩
  show (put _ _ _).length ≤ _
  rw [length_put]
  split_ifs with hpresent
  · exact hlength
  · exact Nat.succ_le_of_lt (hroom.resolve_left hpresent)

theorem Tidy.recordFailureAt (h : l.Tidy) (source : IpAddr) (now : Instant) :
    (l.recordFailureAt source now).1.Tidy := by
  have hpruned : (prune l.entries now l.window l.ban).length ≤ maxTrackedSources :=
    (List.length_filter_le _ _).trans h.bounded
  rcases recordFailureAt_cases h source now with ⟨entries, hroomier, -, hroom, heq⟩ | ⟨-, heq⟩
  · rw [heq]
    exact .track hroomier.distinct (hroomier.length.trans hpruned) hroom
  · rw [heq]
    exact ⟨distinct_prune h.distinct _ _, hpruned⟩

theorem Tidy.checkAt (h : l.Tidy) (source : IpAddr) (now : Instant) :
    (l.checkAt source now).1.Tidy := by
  unfold UpgradeFailureLimiter.checkAt
  cases hlookup : l.entries.lookup source with
  | none => exact h
  | some entry =>
    refine ⟨h.distinct.put, ?_⟩
    show (put _ _ _).length ≤ _
    rw [length_put, if_pos (by rw [hlookup]; rfl)]
    exact h.bounded

theorem Tidy.onSuccess (h : l.Tidy) (source : IpAddr) : (l.onSuccess source).Tidy :=
  ⟨h.distinct.remove, (List.length_filter_le _ _).trans h.bounded⟩

end UpgradeFailureLimiter

/-! ## One entry -/

namespace FailureWindow

variable {entry : FailureWindow} {limit : UInt32} {window ban : Duration} {now : Instant}

/-- The window of an entry. -/
def tally (entry : FailureWindow) : FixedWindow Instant :=
  { start := entry.windowStart, count := entry.failures }

theorem tally_count : entry.tally.count = entry.failures := rfl

@[simp] theorem roll_lastSeen : (entry.roll window now).lastSeen = entry.lastSeen := by
  unfold roll
  split <;> rfl

@[simp] theorem roll_bannedUntil : (entry.roll window now).bannedUntil = entry.bannedUntil := by
  unfold roll
  split <;> rfl

theorem roll_tally (hwindow : 0 < window) :
    (entry.roll window now).tally = entry.tally.roll window now := by
  unfold roll FixedWindow.roll
  have hover : now - entry.windowStart ≥ window ↔ entry.windowStart + window ≤ now :=
    ⟨fun h => Nat.add_le_of_le_sub' (Nat.le_of_lt (Nat.lt_of_sub_pos
      (Nat.lt_of_lt_of_le hwindow h))) h, Nat.le_sub_of_add_le'⟩
  by_cases h : entry.windowStart + window ≤ now
  · rw [if_pos (hover.mpr h)]
    exact (if_pos h).symm
  · rw [if_neg fun h' => h (hover.mp h')]
    exact (if_neg h).symm

@[simp] theorem count_lastSeen : (entry.count limit window ban now).1.lastSeen = now := by
  unfold count
  dsimp only
  split <;> simp

theorem count_bannedUntil : (entry.count limit window ban now).1.bannedUntil =
    if (entry.count limit window ban now).2 then some (now + ban) else entry.bannedUntil := by
  unfold count
  dsimp only
  split <;> simp

/-- An entry counts its failures in a window that is reset late, and by a ban. -/
theorem count_tally (entry : FailureWindow) (limit : UInt32) (ban : Duration) (now : Instant)
    (hwindow : 0 < window) :
    (entry.count limit window ban now).1.tally =
        (entry.tally.hit limit.toNat window now).1 ∧
      (entry.count limit window ban now).2 = (entry.tally.hit limit.toNat window now).2 := by
  have hlimit : limit.toNat < 2 ^ 32 := limit.toNat_lt
  have hroll : ({ entry with lastSeen := now }.roll window now).tally =
      entry.tally.roll window now := roll_tally hwindow
  have hcount : ({ entry with lastSeen := now }.roll window now).failures =
      (entry.tally.roll window now).count := congrArg FixedWindow.count hroll
  have hstart : ({ entry with lastSeen := now }.roll window now).windowStart =
      (entry.tally.roll window now).start := congrArg FixedWindow.start hroll
  unfold count
  dsimp only
  by_cases hburst : limit.toNat ≤ (entry.tally.roll window now).count + 1
  · rw [FixedWindow.hit_of_burst hburst, if_pos (by omega)]
    exact ⟨rfl, rfl⟩
  · rw [FixedWindow.hit_of_room hburst, if_neg (by omega)]
    refine ⟨?_, rfl⟩
    rw [tally, hstart, hcount, Nat.min_eq_left (by omega)]

end FailureWindow

/-! ## One call -/

namespace LimiterRun

variable {w w' : LimiterRun} {c : Call} {x : IpAddr} {t : Instant}

/-- The entry of a source. -/
def slot? (w : LimiterRun) (x : IpAddr) : Option FailureWindow := w.limiter.entries.lookup x

/-- The failures of a source that were counted. -/
def failuresOf (x : IpAddr) (log : List (IpAddr × Instant)) : List Instant :=
  (log.filter fun f => f.1 = x).map (·.2)

theorem failuresOf_cons_self (log : List (IpAddr × Instant)) :
    failuresOf x ((x, t) :: log) = t :: failuresOf x log := by
  simp [failuresOf]

theorem failuresOf_cons_ne {source : IpAddr} (h : source ≠ x) (log : List (IpAddr × Instant)) :
    failuresOf x ((source, t) :: log) = failuresOf x log := by
  simp [failuresOf, h]

/-- What a call leaves of the settings and the clock. -/
structure Follows (w w' : LimiterRun) : Prop where
  limit : w'.limiter.limit = w.limiter.limit
  window : w'.limiter.window = w.limiter.window
  ban : w'.limiter.ban = w.limiter.ban
  now : w.now ≤ w'.now

theorem Follows.refl (w : LimiterRun) : Follows w w := ⟨rfl, rfl, rfl, Nat.le_refl _⟩

theorem Follows.trans {v : LimiterRun} (h : Follows w v) (h' : Follows v w') : Follows w w' :=
  ⟨h'.limit.trans h.limit, h'.window.trans h.window, h'.ban.trans h.ban, h.now.trans h'.now⟩

/-- What a check leaves. -/
theorem next_check {source : IpAddr} (h : w.next (.check source t) = some w') :
    w.now ≤ t ∧ w' = { w with limiter := (w.limiter.checkAt source t).1, now := t } := by
  simp only [next] at h
  split_ifs at h with hpast
  exact ⟨Nat.le_of_not_lt hpast, (Option.some.inj h).symm⟩

/-- What a failure leaves. -/
theorem next_recordFailure {source : IpAddr} (h : w.next (.recordFailure source t) = some w') :
    w.now ≤ t ∧ w' =
      { limiter := (w.limiter.recordFailureAt source t).1
        now := t
        log :=
          if ((w.limiter.recordFailureAt source t).1.entries.lookup source).isSome then
            (source, t) :: w.log
          else w.log } := by
  unfold next at h
  dsimp only at h
  by_cases hpast : t < w.now
  · rw [if_pos hpast] at h
    cases h
  · rw [if_neg hpast] at h
    exact ⟨Nat.le_of_not_lt hpast, (Option.some.inj h).symm⟩

/-- What a change of the order leaves. -/
theorem next_rehash {entries : List (IpAddr × FailureWindow)}
    (h : w.next (.rehash entries) = some w') :
    entries.Perm w.limiter.entries ∧ w' = { w with limiter := { w.limiter with entries } } := by
  simp only [next] at h
  split_ifs at h with hperm
  exact ⟨hperm, (Option.some.inj h).symm⟩

theorem follows_next (h : w.next c = some w') : Follows w w' := by
  cases c with
  | check source t =>
    obtain ⟨hpast, rfl⟩ := next_check h
    refine ⟨?_, ?_, ?_, hpast⟩
    all_goals unfold UpgradeFailureLimiter.checkAt; split <;> rfl
  | recordFailure source t =>
    obtain ⟨hpast, rfl⟩ := next_recordFailure h
    refine ⟨?_, ?_, ?_, hpast⟩
    all_goals
      unfold UpgradeFailureLimiter.recordFailureAt
      dsimp only
      split
    all_goals first
      | rfl
      | split <;> rfl
  | onSuccess source =>
    obtain rfl := Option.some.inj h
    exact ⟨rfl, rfl, rfl, Nat.le_refl _⟩
  | rehash entries =>
    obtain ⟨-, rfl⟩ := next_rehash h
    exact ⟨rfl, rfl, rfl, Nat.le_refl _⟩

theorem tidy_next (hw : w.limiter.Tidy) (h : w.next c = some w') : w'.limiter.Tidy := by
  cases c with
  | check source t =>
    obtain ⟨-, rfl⟩ := next_check h
    exact hw.checkAt source t
  | recordFailure source t =>
    obtain ⟨-, rfl⟩ := next_recordFailure h
    exact hw.recordFailureAt source t
  | onSuccess source =>
    obtain rfl := Option.some.inj h
    exact hw.onSuccess source
  | rehash entries =>
    obtain ⟨hperm, rfl⟩ := next_rehash h
    exact ⟨(hw.distinct.lookup_perm (k := .v4 0) hperm).1, hperm.length_eq ▸ hw.bounded⟩

/-- What `prune` leaves of the entry of a source when a failure comes in. -/
def pruned? (w : LimiterRun) (x : IpAddr) (t : Instant) : Option FailureWindow :=
  (UpgradeFailureLimiter.prune w.limiter.entries t w.limiter.window w.limiter.ban).lookup x

theorem pruned_eq (hw : w.limiter.Tidy) : w.pruned? x t = (w.slot? x).filter fun e =>
    e.banned t || t - e.lastSeen < max w.limiter.window w.limiter.ban :=
  UpgradeFailureLimiter.lookup_prune hw.distinct _ _

/-- The failure of a source that is tracked: its entry counts it. -/
structure Recorded (w w' : LimiterRun) (x : IpAddr) (t : Instant) : Prop where
  entry : w'.slot? x = some (((w.pruned? x t).getD (.fresh t)).count w.limiter.limit
    w.limiter.window w.limiter.ban t).1
  started : (w.limiter.recordFailureAt x t).2 = (((w.pruned? x t).getD (.fresh t)).count
    w.limiter.limit w.limiter.window w.limiter.ban t).2
  log : w'.log = (x, t) :: w.log
  now : w'.now = t

theorem now_record {source : IpAddr} (h : w.next (.recordFailure source t) = some w') :
    w'.now = t := by
  rw [(next_recordFailure h).2]

theorem entry_record {source : IpAddr} (h : w.next (.recordFailure source t) = some w') :
    w'.slot? x = (w.limiter.recordFailureAt source t).1.entries.lookup x := by
  rw [(next_recordFailure h).2]
  rfl

/-- The failure of a source is recorded, or the source is not tracked. -/
theorem record_cases (hw : w.limiter.Tidy) (h : w.next (.recordFailure x t) = some w') :
    Recorded w w' x t ∨
      w.pruned? x t = none ∧ w'.slot? x = none ∧ (w.limiter.recordFailureAt x t).2 = false := by
  obtain ⟨-, rfl⟩ := next_recordFailure h
  rcases UpgradeFailureLimiter.recordFailureAt_cases hw x t with
    ⟨entries, hroomier, hsame, hroom, heq⟩ | ⟨habsent, heq⟩
  · have hentry := UpgradeFailureLimiter.lookup_track w.limiter entries x t x
    rw [if_pos rfl, hsame] at hentry
    rw [heq, hentry]
    refine .inl ⟨hentry, ?_, rfl, rfl⟩
    rw [heq, UpgradeFailureLimiter.track, hsame, pruned?]
  · refine .inr ⟨habsent, ?_, congrArg Prod.snd heq⟩
    rw [heq]
    exact habsent

/-- What `prune` does to the entry of a source. -/
theorem pruned_cases (hw : w.limiter.Tidy) (x : IpAddr) (t : Instant) :
    w.pruned? x t = w.slot? x ∨
      w.pruned? x t = none ∧ ∃ entry, w.slot? x = some entry ∧ entry.banned t = false := by
  rw [pruned_eq hw]
  cases hentry : w.slot? x with
  | none => exact .inl rfl
  | some entry =>
    rw [Option.filter_some]
    by_cases hbanned : entry.banned t = true
    · exact .inl (by simp [hbanned])
    · split
      · exact .inl rfl
      · exact .inr ⟨rfl, entry, rfl, by simpa using hbanned⟩

/-- The failure of another source leaves an entry alone, or forgets it if it is under no ban. -/
theorem other_cases (hw : w.limiter.Tidy) {source : IpAddr} (hx : x ≠ source) (t : Instant) :
    (w.limiter.recordFailureAt source t).1.entries.lookup x = w.slot? x ∨
      (w.limiter.recordFailureAt source t).1.entries.lookup x = none ∧
        ∃ entry, w.slot? x = some entry ∧ entry.banned t = false := by
  rcases UpgradeFailureLimiter.recordFailureAt_cases hw source t with
    ⟨entries, hroomier, -, -, heq⟩ | ⟨-, heq⟩
  · rw [heq, UpgradeFailureLimiter.lookup_track, if_neg hx]
    rcases hroomier.lookup x with hkept | ⟨hnone, entry, hentry, hban⟩
    · rw [hkept]
      exact pruned_cases hw x t
    · -- What room is made of was not pruned.
      rcases pruned_cases hw x t with hsame | ⟨hpruned, -⟩
      · exact .inr ⟨hnone, entry, hsame.symm.trans hentry, hban⟩
      · exact absurd (hpruned.symm.trans hentry) nofun
  · rw [heq]
    exact pruned_cases hw x t

/-- What a call does to the entry of a source that it records no failure of. -/
inductive Touched (w w' : LimiterRun) (x : IpAddr) (c : Call) : Prop where
  | same (h : w'.slot? x = w.slot? x)
  | seen (entry : FailureWindow) (hbefore : w.slot? x = some entry)
      (hafter : w'.slot? x = some { entry with lastSeen := w'.now })
  | succeeded (h : c = .onSuccess x)
  | forgotten (source : IpAddr) (hc : c = .recordFailure source w'.now) (entry : FailureWindow)
      (hbefore : w.slot? x = some entry) (hban : entry.banned w'.now = false)
      (hafter : w'.slot? x = none)

theorem touched_next (hw : w.limiter.Tidy) (h : w.next c = some w')
    (hother : ∀ t, c ≠ .recordFailure x t) : Touched w w' x c := by
  cases c with
  | check source t =>
    obtain ⟨-, rfl⟩ := next_check h
    unfold UpgradeFailureLimiter.checkAt
    cases hsource : w.limiter.entries.lookup source with
    | none => exact .same rfl
    | some entry =>
      by_cases hx : x = source
      · subst hx
        refine .seen entry hsource ?_
        exact lookup_put.trans (if_pos rfl)
      · exact .same (lookup_put.trans (if_neg hx))
  | recordFailure source t =>
    have hx : x ≠ source := by
      rintro rfl
      exact hother t rfl
    have hafter := entry_record (x := x) h
    obtain rfl := now_record h
    rcases other_cases hw hx w'.now with hsame | ⟨hnone, entry, hentry, hban⟩
    · exact .same (hafter.trans hsame)
    · exact .forgotten source rfl entry hentry hban (hafter.trans hnone)
  | onSuccess source =>
    obtain rfl := Option.some.inj h
    by_cases hx : x = source
    · exact .succeeded (hx ▸ rfl)
    · exact .same (lookup_remove.trans (if_neg hx))
  | rehash entries =>
    obtain ⟨hperm, rfl⟩ := next_rehash h
    exact .same (hw.distinct.lookup_perm hperm).2

/-- A call is a failure of the source, or does no more to its entry than `Touched` says. -/
theorem next_cases (hw : w.limiter.Tidy) (x : IpAddr) (h : w.next c = some w') :
    c = .recordFailure x w'.now ∨ (∀ t, c ≠ .recordFailure x t) ∧ Touched w w' x c := by
  by_cases hrecord : ∃ t, c = .recordFailure x t
  · obtain ⟨t, rfl⟩ := hrecord
    exact .inl (by rw [now_record h])
  · have hother : ∀ t, c ≠ .recordFailure x t := fun t ht => hrecord ⟨t, ht⟩
    exact .inr ⟨hother, touched_next hw h hother⟩

/-- A success forgets the source. -/
theorem slot_onSuccess (h : w.next (.onSuccess x) = some w') : w'.slot? x = none := by
  obtain rfl := Option.some.inj h
  exact lookup_remove.trans (if_pos rfl)

/-! ## Bans -/

/-- No ban lasts longer than one that starts now. -/
structure Guarded (w : LimiterRun) : Prop where
  tidy : w.limiter.Tidy
  bans : ∀ x entry deadline, w.slot? x = some entry → entry.bannedUntil = some deadline →
    deadline ≤ w.now + w.limiter.ban

/-- The entry that a failure is counted in has no other ban than the one before. -/
theorem bannedUntil_pruned (hw : w.limiter.Tidy) {deadline : Instant}
    (h : ((w.pruned? x t).getD (.fresh t)).bannedUntil = some deadline) :
    ∃ entry, w.slot? x = some entry ∧ entry.bannedUntil = some deadline := by
  rcases pruned_cases hw x t with hsame | ⟨hnone, -⟩
  · rw [hsame] at h
    cases hentry : w.slot? x with
    | none => simp [hentry, FailureWindow.fresh] at h
    | some entry => exact ⟨entry, rfl, by simpa [hentry] using h⟩
  · simp [hnone, FailureWindow.fresh] at h

theorem guarded_next (hw : Guarded w) (h : w.next c = some w') : Guarded w' := by
  have hfollows : Follows w w' := follows_next h
  refine ⟨tidy_next hw.tidy h, fun x entry deadline hentry hdeadline => ?_⟩
  have hlater : w.now + w.limiter.ban ≤ w'.now + w'.limiter.ban := by
    rw [hfollows.ban]
    exact Nat.add_le_add_right hfollows.now _
  rcases next_cases hw.tidy x h with rfl | ⟨-, htouched⟩
  · rcases record_cases hw.tidy h with hrecorded | hnone
    · obtain rfl := Option.some.inj (hrecorded.entry.symm.trans hentry)
      rw [FailureWindow.count_bannedUntil] at hdeadline
      split at hdeadline
      · obtain rfl := Option.some.inj hdeadline
        rw [hfollows.ban]
      · obtain ⟨before, hbefore, hsame⟩ := bannedUntil_pruned hw.tidy hdeadline
        exact (hw.bans x before deadline hbefore hsame).trans hlater
    · simp [hnone.2.1] at hentry
  · cases htouched with
    | same hsame =>
      exact (hw.bans x entry deadline (hsame.symm.trans hentry) hdeadline).trans hlater
    | seen before hbefore hafter =>
      obtain rfl := Option.some.inj (hafter.symm.trans hentry)
      exact (hw.bans x before deadline hbefore hdeadline).trans hlater
    | succeeded hc =>
      subst hc
      simp [slot_onSuccess h] at hentry
    | forgotten source hc before hbefore hban hafter => simp [hafter] at hentry

/-- The source is banned at least until `deadline`, as long as that is to come. -/
def BannedUntil (x : IpAddr) (deadline : Instant) (w : LimiterRun) : Prop :=
  w.now < deadline → ∃ entry later, w.slot? x = some entry ∧ entry.bannedUntil = some later ∧
    deadline ≤ later

theorem bannedUntil_next {deadline : Instant} (hw : Guarded w) (hban : BannedUntil x deadline w)
    (hdeadline : deadline ≤ w.now + w.limiter.ban) (hc : c ≠ .onSuccess x)
    (h : w.next c = some w') : BannedUntil x deadline w' := by
  intro hrunning
  have hfollows : Follows w w' := follows_next h
  obtain ⟨entry, later, hentry, hlater, hle⟩ := hban (Nat.lt_of_le_of_lt hfollows.now hrunning)
  have hbanned : ∀ now, now < deadline → entry.banned now = true := by
    intro now hnow
    simp only [FailureWindow.banned, hlater, Option.any_some, decide_eq_true_eq]
    exact Nat.lt_of_lt_of_le hnow hle
  rcases next_cases hw.tidy x h with rfl | ⟨-, htouched⟩
  · have hkept : w.pruned? x w'.now = some entry := by
      rcases pruned_cases hw.tidy x w'.now with hsame | ⟨-, before, hbefore, hfree⟩
      · exact hsame.trans hentry
      · obtain rfl := Option.some.inj (hbefore.symm.trans hentry)
        simp [hbanned w'.now hrunning] at hfree
    rcases record_cases hw.tidy h with hrecorded | ⟨hnone, -⟩
    · have hafter := hrecorded.entry
      rw [hkept, Option.getD_some] at hafter
      by_cases hstarts :
          (entry.count w.limiter.limit w.limiter.window w.limiter.ban w'.now).2 = true
      · have hnew : deadline ≤ w'.now + w.limiter.ban :=
          hdeadline.trans (Nat.add_le_add_right hfollows.now _)
        exact ⟨_, _, hafter, FailureWindow.count_bannedUntil.trans (if_pos hstarts), hnew⟩
      · refine ⟨_, later, hafter, ?_, hle⟩
        rw [FailureWindow.count_bannedUntil, if_neg hstarts, hlater]
    · simp [hkept] at hnone
  · cases htouched with
    | same hsame => exact ⟨entry, later, hsame.trans hentry, hlater, hle⟩
    | seen before hbefore hafter =>
      obtain rfl := Option.some.inj (hbefore.symm.trans hentry)
      exact ⟨_, later, hafter, hlater, hle⟩
    | succeeded hsuccess => exact absurd hsuccess hc
    | forgotten source _ before hbefore hfree hafter =>
      obtain rfl := Option.some.inj (hbefore.symm.trans hentry)
      simp [hbanned _ hrunning] at hfree

/-- The run of a ban. -/
theorem bannedUntil_run {deadline : Instant} (hdeadline : deadline ≤ w.now + w.limiter.ban)
    (hw : Guarded w) (hban : BannedUntil x deadline w) {ls : List Call} (hls : .onSuccess x ∉ ls)
    (hrun : Trace.run next w ls = some w') : BannedUntil x deadline w' := by
  have hsteps : Trace.AllSteps next (fun _ c => c ≠ .onSuccess x) w ls := by
    refine Trace.AllSteps.of_forall fun c hc => ?_
    rintro rfl
    exact hls hc
  have hall : Trace.AllStates next (fun v => Guarded v ∧ deadline ≤ v.now + v.limiter.ban ∧
      BannedUntil x deadline v) w ls := by
    refine Trace.AllStates.of_invariant (fun v c v' hv hc hnext => ?_) ⟨hw, hdeadline, hban⟩ hsteps
    obtain ⟨hguarded, hdeadline, hban⟩ := hv
    have hfollows : Follows v v' := follows_next hnext
    refine ⟨guarded_next hguarded hnext, ?_, bannedUntil_next hguarded hban hdeadline hc hnext⟩
    rw [hfollows.ban]
    exact hdeadline.trans (Nat.add_le_add_right hfollows.now _)
  exact (hall.last hrun).2.2

theorem guarded_init (limit : UInt32) (window ban : Duration) :
    Guarded (init limit window ban) where
  tidy := ⟨List.nodup_nil, Nat.zero_le _⟩
  bans _ _ _ hentry := absurd hentry nofun

/-- **A ban cannot be shaken off.** The map is bounded, and whatever calls follow, as long as none
of them is a success of the source, a source banned until `deadline` is turned away at any time
before, and told to wait at least until then. -/
theorem ban_holds (limit : UInt32) (window ban : Duration) {ls : List Call}
    (hrun : Trace.run next (init limit window ban) ls = some w) :
    w.limiter.entries.length ≤ maxTrackedSources ∧
    ∀ x entry deadline, w.limiter.entries.lookup x = some entry →
      entry.bannedUntil = some deadline →
      ∀ ls' w', .onSuccess x ∉ ls' → Trace.run next w ls' = some w' →
        ∀ t, w'.now ≤ t → t < deadline →
          ∃ retryAfter, (w'.limiter.checkAt x t).2 = .error retryAfter ∧
            deadline - t ≤ retryAfter := by
  have hall : Trace.AllStates next Guarded (init limit window ban) ls :=
    Trace.AllStates.of_next (fun _ _ _ => guarded_next) (guarded_init limit window ban)
  have hw : Guarded w := hall.last hrun
  refine ⟨hw.tidy.bounded, fun x entry deadline hentry hdeadline ls' w' hls' hrun' t hnow ht => ?_⟩
  have hban : BannedUntil x deadline w := fun _ =>
    ⟨entry, deadline, hentry, hdeadline, Nat.le_refl _⟩
  have hban' : BannedUntil x deadline w' :=
    bannedUntil_run (hw.bans x entry deadline hentry hdeadline) hw hban hls' hrun'
  obtain ⟨entry', later, hentry', hlater, hle⟩ := hban' (Nat.lt_of_le_of_lt hnow ht)
  refine ⟨later - t, ?_, Nat.sub_le_sub_right hle t⟩
  unfold UpgradeFailureLimiter.checkAt
  rw [show w'.limiter.entries.lookup x = some entry' from hentry']
  simp only [hlater]
  exact if_pos (Nat.lt_of_lt_of_le ht hle)

/-- With a limit of one failure a source is still banned after another one has failed. -/
theorem ban_holds_sample : ∃ w', Trace.run next (init 1 60 60) [.recordFailure (.v4 1) 5,
      .recordFailure (.v4 2) 10] = some w' ∧
    ∃ retryAfter, (w'.limiter.checkAt (.v4 1) 20).2 = .error retryAfter ∧ 65 - 20 ≤ retryAfter := by
  obtain ⟨w, hrun, entry, hentry, hdeadline⟩ : ∃ w,
      Trace.run next (init 1 60 60) [.recordFailure (.v4 1) 5] = some w ∧
        ∃ entry, w.limiter.entries.lookup (.v4 1) = some entry ∧ entry.bannedUntil = some 65 :=
    ⟨_, rfl, _, rfl, rfl⟩
  obtain ⟨w', hrun', hnow⟩ : ∃ w', Trace.run next (init 1 60 60) [.recordFailure (.v4 1) 5,
      .recordFailure (.v4 2) 10] = some w' ∧ w'.now ≤ 20 := ⟨_, rfl, by decide⟩
  refine ⟨w', hrun', ?_⟩
  have hlater : Trace.run next w [.recordFailure (.v4 2) 10] = some w' := by
    rw [← hrun', show [Call.recordFailure (.v4 1) 5, Call.recordFailure (.v4 2) 10] =
      [Call.recordFailure (.v4 1) 5] ++ [Call.recordFailure (.v4 2) 10] from rfl,
      Trace.run_append, hrun]
    rfl
  exact (ban_holds 1 60 60 hrun).2 _ _ _ hentry hdeadline _ _ (by decide) hlater 20 hnow (by decide)

/-! ## Bursts -/

/-- The entries count failures of the log, and none is full. -/
structure Counted (w : LimiterRun) : Prop where
  tidy : w.limiter.Tidy
  past : ∀ f ∈ w.log, f.2 ≤ w.now
  counts : ∀ x entry, w.slot? x = some entry → entry.tally.Counts (failuresOf x w.log) w.now
  room : ∀ x entry, w.slot? x = some entry → entry.failures < w.limiter.limit.toNat

/-- The calls that are not failures of a source leave its log alone. -/
theorem failuresOf_next (h : w.next c = some w') (hother : ∀ t, c ≠ .recordFailure x t) :
    failuresOf x w'.log = failuresOf x w.log := by
  cases c with
  | check source t =>
    obtain ⟨-, rfl⟩ := next_check h
    rfl
  | recordFailure source t =>
    have hsource : source ≠ x := by
      rintro rfl
      exact hother t rfl
    obtain ⟨-, rfl⟩ := next_recordFailure h
    dsimp only
    split_ifs
    · exact failuresOf_cons_ne hsource w.log
    · rfl
  | onSuccess source =>
    obtain rfl := Option.some.inj h
    rfl
  | rehash entries =>
    obtain ⟨-, rfl⟩ := next_rehash h
    rfl

/-- The log only gets failures of now. -/
theorem log_next (h : w.next c = some w') : ∀ f ∈ w'.log, f ∈ w.log ∨ f.2 = w'.now := by
  intro f hf
  cases c with
  | check source t =>
    obtain ⟨-, rfl⟩ := next_check h
    exact .inl hf
  | recordFailure source t =>
    obtain ⟨-, rfl⟩ := next_recordFailure h
    dsimp only at hf ⊢
    split_ifs at hf
    · cases hf with
      | head => exact .inr rfl
      | tail _ hold => exact .inl hold
    · exact .inl hf
  | onSuccess source =>
    obtain rfl := Option.some.inj h
    exact .inl hf
  | rehash entries =>
    obtain ⟨-, rfl⟩ := next_rehash h
    exact .inl hf

/-- The entry that a failure is counted in counts failures of the log. -/
theorem Counted.pruned (hw : Counted w) (hlimit : 0 < w.limiter.limit.toNat) (hnow : w.now ≤ t) :
    ((w.pruned? x t).getD (.fresh t)).tally.Counts (failuresOf x w.log) t ∧
      ((w.pruned? x t).getD (.fresh t)).failures < w.limiter.limit.toNat := by
  cases hpruned : w.pruned? x t with
  | none => exact ⟨FixedWindow.counts_new _ t, hlimit⟩
  | some entry =>
    rcases pruned_cases hw.tidy x t with hsame | ⟨hnone, -⟩
    · have hentry : w.slot? x = some entry := hsame.symm.trans hpruned
      exact ⟨(hw.counts x entry hentry).wait hnow, hw.room x entry hentry⟩
    · exact absurd (hnone.symm.trans hpruned) nofun

theorem counted_next (hlimit : 0 < w.limiter.limit.toNat) (hwindow : 0 < w.limiter.window)
    (hw : Counted w) (h : w.next c = some w') : Counted w' := by
  have hfollows : Follows w w' := follows_next h
  have hboth : ∀ x entry, w'.slot? x = some entry →
      entry.tally.Counts (failuresOf x w'.log) w'.now ∧
        entry.failures < w'.limiter.limit.toNat := by
    intro x entry hentry
    rw [hfollows.limit]
    rcases next_cases hw.tidy x h with rfl | ⟨hother, htouched⟩
    · rcases record_cases hw.tidy h with hrecorded | ⟨-, hnone, -⟩
      · obtain ⟨hcounts, -⟩ := hw.pruned (x := x) hlimit hfollows.now
        obtain rfl := Option.some.inj (hrecorded.entry.symm.trans hentry)
        have htally := (FailureWindow.count_tally ((w.pruned? x w'.now).getD (.fresh w'.now))
          w.limiter.limit w.limiter.ban w'.now hwindow).1
        rw [← FailureWindow.tally_count, htally, hrecorded.log, failuresOf_cons_self]
        exact ⟨hcounts.hit (Nat.le_refl _), FixedWindow.hit_count_lt hlimit⟩
      · simp [hnone] at hentry
    · rw [failuresOf_next h hother]
      cases htouched with
      | same hsame =>
        have hbefore : w.slot? x = some entry := hsame.symm.trans hentry
        exact ⟨(hw.counts x entry hbefore).wait hfollows.now, hw.room x entry hbefore⟩
      | seen before hbefore hafter =>
        obtain rfl := Option.some.inj (hafter.symm.trans hentry)
        exact ⟨(hw.counts x before hbefore).wait hfollows.now, hw.room x before hbefore⟩
      | succeeded hc =>
        subst hc
        simp [slot_onSuccess h] at hentry
      | forgotten source hc before hbefore hban hafter => simp [hafter] at hentry
  refine ⟨tidy_next hw.tidy h, fun f hf => ?_, fun x entry hentry => (hboth x entry hentry).1,
    fun x entry hentry => (hboth x entry hentry).2⟩
  rcases log_next h f hf with hold | hnew
  · exact (hw.past f hold).trans hfollows.now
  · exact hnew.le

theorem counted_init {limit : UInt32} {window ban : Duration} :
    Counted (init limit window ban) where
  tidy := ⟨List.nodup_nil, Nat.zero_le _⟩
  past _ hf := absurd hf (by simp [init])
  counts _ _ hentry := absurd hentry nofun
  room _ _ hentry := absurd hentry nofun

/-- What starts a ban is a burst. -/
theorem Counted.burst (hlimit : 0 < w.limiter.limit.toNat) (hwindow : 0 < w.limiter.window)
    (hw : Counted w) (h : w.next (.recordFailure x t) = some w')
    (hban : (w.limiter.recordFailureAt x t).2 = true) :
    w.limiter.limit.toNat ≤ (failuresOf x w'.log).countP fun s =>
      decide (t < s + w.limiter.window ∧ s ≤ t) := by
  have hnow : w.now ≤ t := now_record h ▸ (follows_next h).now
  rcases record_cases hw.tidy h with hrecorded | ⟨-, -, hsilent⟩
  · obtain ⟨hcounts, -⟩ := hw.pruned (x := x) hlimit hnow
    rw [hrecorded.log, failuresOf_cons_self]
    refine hcounts.burst (fun s hs => ?_) (Nat.le_refl t) (Nat.lt_add_of_pos_right hwindow) ?_
    · obtain ⟨f, hf, rfl⟩ := List.mem_map.mp hs
      exact (hw.past f (List.mem_filter.mp hf).1).trans hnow
    · rw [← (FailureWindow.count_tally _ w.limiter.limit w.limiter.ban t hwindow).2,
        ← hrecorded.started]
      exact hban
  · simp [hsilent] at hban

/-- The call is the failure of a source. -/
def Call.fails (x : IpAddr) : Call → Bool
  | .recordFailure source _ => source = x
  | _ => false

/-- The source does not succeed, and is neither forgotten to make room nor left untracked. -/
def Keeps (x : IpAddr) (w : LimiterRun) : Call → Prop
  | .recordFailure source t => (source = x ∨ (w.pruned? x t).isSome = true) →
      ((w.limiter.recordFailureAt source t).1.entries.lookup x).isSome = true
  | .onSuccess source => source ≠ x
  | _ => True

instance (x : IpAddr) (w : LimiterRun) : DecidablePred (Keeps x w)
  | .recordFailure source t =>
    inferInstanceAs (Decidable ((source = x ∨ (w.pruned? x t).isSome = true) →
      ((w.limiter.recordFailureAt source t).1.entries.lookup x).isSome = true))
  | .onSuccess source => inferInstanceAs (Decidable (source ≠ x))
  | .check _ _ | .rehash _ => isTrue trivial

/-- `hits` failures of a source since `first` started no ban. -/
def Watched (x : IpAddr) (first : Instant) (hits : Nat) (w : LimiterRun) : Prop :=
  ∃ entry, w.slot? x = some entry ∧
    entry.tally.Unreported w.limiter.limit.toNat first hits ∧ first ≤ entry.lastSeen

/-- A failure that is recorded starts a ban, or there is one more that did not. -/
theorem watched_record {first : Instant} {hits : Nat} (hwindow : 0 < w.limiter.window)
    (hrecorded : Recorded w w' x t) (h : w.next (.recordFailure x t) = some w')
    (hbefore : ((w.pruned? x t).getD (.fresh t)).tally.Unreported w.limiter.limit.toNat first hits)
    (hfirst : first ≤ t) (hspan : t < first + w.limiter.window) :
    (w.limiter.recordFailureAt x t).2 = true ∨ Watched x first (hits + 1) w' := by
  have htally := FailureWindow.count_tally ((w.pruned? x t).getD (.fresh t)) w.limiter.limit
    w.limiter.ban t hwindow
  rw [hrecorded.started]
  cases hstarts : (((w.pruned? x t).getD (.fresh t)).count w.limiter.limit w.limiter.window
      w.limiter.ban t).2 with
  | true => exact .inl rfl
  | false =>
    refine .inr ⟨_, hrecorded.entry, ?_, ?_⟩
    · rw [(follows_next h).limit, htally.1]
      exact hbefore.hit hfirst hspan (htally.2.symm.trans hstarts)
    · rw [FailureWindow.count_lastSeen]
      exact hfirst

/-- An entry that was seen within the window is not pruned. -/
theorem pruned_of_seen (hw : w.limiter.Tidy) {entry : FailureWindow}
    (hentry : w.slot? x = some entry) (hseen : t < entry.lastSeen + w.limiter.window)
    (hwindow : 0 < w.limiter.window) : w.pruned? x t = some entry := by
  rw [pruned_eq hw, hentry, Option.filter_some, if_pos]
  have hfresh : t - entry.lastSeen < w.limiter.window := by
    by_cases hle : entry.lastSeen ≤ t
    · exact Nat.sub_lt_left_of_lt_add hle hseen
    · rwa [Nat.sub_eq_zero_of_le (Nat.le_of_not_le hle)]
  simp [Nat.lt_of_lt_of_le hfresh (Nat.le_max_left _ _)]

/-- The call starts a ban for the source. -/
def StartsBan (x : IpAddr) (w : LimiterRun) : Call → Prop
  | .recordFailure source t => source = x ∧ (w.limiter.recordFailureAt x t).2 = true
  | _ => False

/-- The step lemma of the watch: within the window the entry is not pruned. -/
theorem watched_next {first : Instant} {hits : Nat} (hwindow : 0 < w.limiter.window)
    (hw : w.limiter.Tidy) (hwatched : Watched x first hits w) (hkeeps : Keeps x w c)
    (h : w.next c = some w') (hfirst : first ≤ w.now) (hspan : w'.now < first + w.limiter.window) :
    StartsBan x w c ∨ Watched x first (hits + [c].countP (·.fails x)) w' := by
  obtain ⟨entry, hentry, hunreported, hseen⟩ := hwatched
  have hfollows : Follows w w' := follows_next h
  have hkept : w.pruned? x w'.now = some entry :=
    pruned_of_seen hw hentry (Nat.lt_of_lt_of_le hspan (Nat.add_le_add_right hseen _)) hwindow
  rcases next_cases hw x h with rfl | ⟨hother, htouched⟩
  · have hone : [Call.recordFailure x w'.now].countP (·.fails x) = 1 := by simp [Call.fails]
    rw [hone]
    rcases record_cases hw h with hrecorded | ⟨hnone, -, -⟩
    · have hbefore : ((w.pruned? x w'.now).getD (.fresh w'.now)).tally.Unreported
          w.limiter.limit.toNat first hits := by
        rw [hkept]
        exact hunreported
      rcases watched_record hwindow hrecorded h hbefore (hfirst.trans hfollows.now) hspan with
        hban | hwatched
      · exact .inl ⟨rfl, hban⟩
      · exact .inr hwatched
    · exact absurd (hkept.symm.trans hnone) nofun
  · have hzero : [c].countP (·.fails x) = 0 := by
      cases c <;> simp [Call.fails]
      rintro rfl
      exact hother _ rfl
    rw [hzero, Watched, hfollows.limit]
    refine .inr ?_
    cases htouched with
    | same hsame => exact ⟨entry, hsame.trans hentry, hunreported, hseen⟩
    | seen before hbefore hafter =>
      obtain rfl := Option.some.inj (hbefore.symm.trans hentry)
      exact ⟨_, hafter, hunreported, hfirst.trans hfollows.now⟩
    | succeeded hc =>
      subst hc
      exact absurd rfl hkeeps
    | forgotten source hc before hbefore hban hafter =>
      subst hc
      have htracked := hkeeps (.inr (by rw [hkept]; rfl))
      rw [← entry_record h, hafter] at htracked
      cases htracked

theorem follows_run {ls : List Call} (hrun : Trace.run next w ls = some w') : Follows w w' := by
  have hall : Trace.AllStates next (Follows w) w ls :=
    Trace.AllStates.of_next (fun _ _ _ hv h => hv.trans (follows_next h)) (.refl w)
  exact hall.last hrun

/-- The call at which a ban starts, in a run. -/
def BanIn (x : IpAddr) (w : LimiterRun) (ls : List Call) : Prop :=
  ∃ before c after v, ls = before ++ c :: after ∧ Trace.run next w before = some v ∧ StartsBan x v c

theorem BanIn.later {ls : List Call} {v : LimiterRun} (hv : w.next c = some v)
    (h : BanIn x v ls) : BanIn x w (c :: ls) := by
  obtain ⟨before, c', after, u, rfl, hrun, hban⟩ := h
  refine ⟨c :: before, c', after, u, rfl, ?_, hban⟩
  simp [Trace.run, hv, hrun]

/-- The run lemma of the watch. -/
theorem watched_run {first : Instant} {hits : Nat} {ls : List Call}
    (hwindow : 0 < w.limiter.window) (hw : w.limiter.Tidy) (hwatched : Watched x first hits w)
    (hkeeps : Trace.AllSteps next (Keeps x) w ls) (hrun : Trace.run next w ls = some w')
    (hfirst : first ≤ w.now) (hspan : w'.now < first + w.limiter.window) :
    BanIn x w ls ∨ Watched x first (hits + ls.countP (·.fails x)) w' := by
  induction ls generalizing w hits with
  | nil =>
    obtain rfl := Option.some.inj hrun
    exact .inr hwatched
  | cons c ls ih =>
    obtain ⟨v, hv, hrun⟩ := Option.bind_eq_some_iff.mp hrun
    obtain ⟨hkeep, hkeeps⟩ := hkeeps v hv
    have hfollows : Follows w v := follows_next hv
    rcases watched_next hwindow hw hwatched hkeep hv hfirst
      (Nat.lt_of_le_of_lt (follows_run hrun).now hspan) with hban | hwatched
    · exact .inl ⟨[], c, ls, w, rfl, rfl, hban⟩
    · rcases ih (hfollows.window ▸ hwindow) (tidy_next hw hv) hwatched hkeeps hrun
        (hfirst.trans hfollows.now) (by rwa [hfollows.window]) with hban | hwatched
      · exact .inl (hban.later hv)
      · rw [← List.singleton_append, List.countP_append, ← Nat.add_assoc]
        exact .inr hwatched

/-- The first failure of the watch. -/
theorem watched_first (hlimit : 0 < w.limiter.limit.toNat) (hwindow : 0 < w.limiter.window)
    (hw : Counted w) (hkeeps : Keeps x w (.recordFailure x t))
    (h : w.next (.recordFailure x t) = some w') :
    StartsBan x w (.recordFailure x t) ∨ Watched x t 1 w' := by
  have hnow : w.now ≤ t := now_record h ▸ (follows_next h).now
  obtain ⟨-, hroom⟩ := hw.pruned (x := x) hlimit hnow
  rcases record_cases hw.tidy h with hrecorded | ⟨-, hnone, -⟩
  · have hbefore : ((w.pruned? x t).getD (.fresh t)).tally.Unreported w.limiter.limit.toNat t 0 :=
      ⟨hroom, .inl (Nat.zero_le _)⟩
    rcases watched_record hwindow hrecorded h hbefore (Nat.le_refl t)
      (Nat.lt_add_of_pos_right hwindow) with hban | hwatched
    · exact .inl ⟨rfl, hban⟩
    · exact .inr hwatched
  · have htracked := hkeeps (.inl rfl)
    rw [← entry_record h, hnone] at htracked
    cases htracked

/-- What a run keeps of the settings. -/
theorem counted_run {limit : UInt32} {window ban : Duration} (hlimit : 0 < limit.toNat)
    (hwindow : 0 < window) {ls : List Call}
    (hrun : Trace.run next (init limit window ban) ls = some w) :
    Counted w ∧ w.limiter.limit = limit ∧ w.limiter.window = window := by
  have hall : Trace.AllStates next (fun w => Counted w ∧ w.limiter.limit = limit ∧
      w.limiter.window = window) (init limit window ban) ls := by
    refine Trace.AllStates.of_next (fun w c w' hw h => ?_) ⟨counted_init, rfl, rfl⟩
    obtain ⟨hcounted, rfl, rfl⟩ := hw
    exact ⟨counted_next hlimit hwindow hcounted h, (follows_next h).limit, (follows_next h).window⟩
  exact hall.last hrun

/-- **Bursts, and only bursts, are banned.** A ban starts at a failure that makes at least `limit`
in the `window` that ends there; and of `2 * limit - 1` failures of a source that is not forgotten
meanwhile, all within one `window`, one starts a ban. -/
theorem bans_bursts (limit : UInt32) (window ban : Duration) (hlimit : 1 ≤ limit.toNat)
    (hwindow : 0 < window) {ls : List Call}
    (hrun : Trace.run next (init limit window ban) ls = some w) :
    (∀ x t w', next w (.recordFailure x t) = some w' → StartsBan x w (.recordFailure x t) →
      limit.toNat ≤ (failuresOf x w'.log).countP fun s => decide (t < s + window ∧ s ≤ t)) ∧
    (∀ x t ls' w', Trace.run next w (.recordFailure x t :: ls') = some w' → w'.now < t + window →
      Trace.AllSteps next (Keeps x) w (.recordFailure x t :: ls') →
      2 * limit.toNat - 1 ≤ (Call.recordFailure x t :: ls').countP (·.fails x) →
      BanIn x w (.recordFailure x t :: ls')) := by
  obtain ⟨hcounted, rfl, rfl⟩ := counted_run hlimit hwindow hrun
  constructor
  · intro x t w' h hban
    exact hcounted.burst hlimit hwindow h hban.2
  · intro x t ls' w' hrun' hspan hkeeps hmany
    obtain ⟨v, hv, hrun'⟩ := Option.bind_eq_some_iff.mp hrun'
    obtain ⟨hkeep, hkeeps⟩ := hkeeps v hv
    have hfollows : Follows w v := follows_next hv
    rcases watched_first hlimit hwindow hcounted hkeep hv with hban | hwatched
    · exact ⟨[], _, ls', w, rfl, rfl, hban⟩
    · rcases watched_run (hfollows.window ▸ hwindow) (tidy_next hcounted.tidy hv) hwatched hkeeps
        hrun' (now_record hv).ge (by rwa [hfollows.window]) with hban | hwatched
      · exact hban.later hv
      · -- So many are not left without a ban.
        obtain ⟨entry, -, hunreported, -⟩ := hwatched
        have hle := hunreported.hits_le
        rw [List.countP_cons, if_pos (by simp [Call.fails])] at hmany
        rw [(follows_run hrun').limit, hfollows.limit] at hle
        omega

/-- With a limit of two, the second of two failures starts a ban, and so does one of three. -/
theorem bans_bursts_sample :
    (∃ w', Trace.run next (init 2 60 60) [.recordFailure (.v4 1) 5, .recordFailure (.v4 1) 6] =
        some w' ∧
      2 ≤ (failuresOf (.v4 1) w'.log).countP fun s => decide (6 < s + 60 ∧ s ≤ 6)) ∧
    BanIn (.v4 1) (init 2 60 60)
      [.recordFailure (.v4 1) 5, .recordFailure (.v4 1) 6, .recordFailure (.v4 1) 7] := by
  constructor
  · obtain ⟨w, hrun, w', h, hrun', hban⟩ : ∃ w,
        Trace.run next (init 2 60 60) [.recordFailure (.v4 1) 5] = some w ∧
        ∃ w', next w (.recordFailure (.v4 1) 6) = some w' ∧
          Trace.run next (init 2 60 60) [.recordFailure (.v4 1) 5, .recordFailure (.v4 1) 6] =
            some w' ∧ StartsBan (.v4 1) w (.recordFailure (.v4 1) 6) :=
      ⟨_, rfl, _, rfl, rfl, rfl, rfl⟩
    exact ⟨w', hrun', (bans_bursts 2 60 60 (by decide) (by decide) hrun).1 _ _ _ h hban⟩
  · obtain ⟨w', hrun', hnow⟩ : ∃ w', Trace.run next (init 2 60 60)
        [.recordFailure (.v4 1) 5, .recordFailure (.v4 1) 6, .recordFailure (.v4 1) 7] = some w' ∧
          w'.now < 5 + 60 := ⟨_, rfl, by decide⟩
    have hinit : Trace.run next (init 2 60 60) [] = some (init 2 60 60) := rfl
    exact (bans_bursts 2 60 60 (by decide) (by decide) hinit).2 _ _ _ _ hrun' hnow
      (by decide) (by decide)

end LimiterRun

end OpenabPty
