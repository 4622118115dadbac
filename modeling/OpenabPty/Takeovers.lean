import OpenabPty.Attaching
import OpenabPty.Core.FixedWindow
import OpenabPty.Core.Trace
import Mathlib.Algebra.Order.Group.Nat

/-!
# The takeover budget of a session

Attaches, detaches, missed pings and renews on one session, one after the other. The bucket of
`TakeoverLimiter` is a fixed window of charges for one generation, and the first attach of a
generation is free. An attach to a session that nobody owns is charged like a takeover, though it
is never refused.
-/

namespace OpenabPty

namespace TakeoverLimiter

variable {l : TakeoverLimiter} {generation : Generation} {now : Instant} {policy : SessionPolicy}

/-- The bucket without its generation. -/
def window (l : TakeoverLimiter) : FixedWindow Instant := { start := l.windowStart, count := l.count }

/-- The next attach of this generation is free. -/
def Fresh (l : TakeoverLimiter) (generation : Generation) : Prop :=
  l.generation ≠ generation ∨ l.firstAttachOfGeneration = true

instance : Decidable (l.Fresh generation) := inferInstanceAs (Decidable (_ ∨ _))

/-- The first attach of a generation. -/
theorem allow_of_fresh (h : l.Fresh generation) (now : Instant) (policy : SessionPolicy) :
    (l.allow generation now policy).2 = true ∧
      (l.allow generation now policy).1.generation = generation ∧
      (l.allow generation now policy).1.firstAttachOfGeneration = false ∧
      (l.allow generation now policy).1.window =
        if l.generation = generation then l.window else { start := now, count := 0 } := by
  unfold allow
  by_cases hgen : l.generation = generation
  · have hfirst := h.resolve_left (not_not.mpr hgen)
    simp [hgen, hfirst, window]
  · simp [hgen, new, window]

/-- Every other attach. -/
theorem allow_of_charged (h : ¬ l.Fresh generation) (policy : SessionPolicy)
    (hle : l.windowStart ≤ now) :
    (l.allow generation now policy).2 =
        (l.window.charge policy.maxTakeoversPerWindow policy.takeoverWindow now).2 ∧
      (l.allow generation now policy).1.generation = generation ∧
      (l.allow generation now policy).1.firstAttachOfGeneration = false ∧
      (l.allow generation now policy).1.window =
        (l.window.charge policy.maxTakeoversPerWindow policy.takeoverWindow now).1 := by
  obtain ⟨hgen, hfirst⟩ := not_or.mp h
  have hgen : l.generation = generation := not_not.mp hgen
  have hfirst : l.firstAttachOfGeneration = false := Bool.eq_false_iff.mpr hfirst
  have hover : now - l.windowStart ≥ policy.takeoverWindow ↔
      l.window.start + policy.takeoverWindow ≤ now := Nat.le_sub_iff_add_le' hle
  unfold allow
  rw [if_neg (not_not.mpr hgen)]
  dsimp only
  rw [if_neg (Bool.eq_false_iff.mp hfirst)]
  by_cases hnew : l.window.start + policy.takeoverWindow ≤ now
  · have hroll := FixedWindow.roll_of_over hnew
    simp only [if_pos (hover.mpr hnew), FixedWindow.charge, hroll]
    split <;> exact ⟨rfl, hgen, hfirst, rfl⟩
  · have hroll := FixedWindow.roll_of_running hnew
    simp only [if_neg (fun h => hnew (hover.mp h)), FixedWindow.charge, hroll]
    have hcount : l.window.count = l.count := rfl
    rw [hcount]
    split <;> exact ⟨rfl, hgen, hfirst, rfl⟩

end TakeoverLimiter

namespace Session

variable {s : Session} {policy : SessionPolicy} {scrollbackReplay : Bool}
  {generation : Generation} {size : WindowSize} {since : Option Nat} {now : Instant}

/-- What an attach comes to: it is turned away for its generation, it is refused, or it is
admitted. In the last two cases the limiter was asked. -/
def Attaches {α : Type} (policy : SessionPolicy) (s : Session) (generation : Generation)
    (now : Instant) (r : Session × Except Error α) : Prop :=
  (s.state.generation ≠ generation ∧ r = (s, .error .unauthorized)) ∨
  (s.state.generation = generation ∧ s.state.ownerConn ≠ ⟨0⟩ ∧
    (s.state.takeovers.allow generation now policy).2 = false ∧
    r = ({ s with state := { s.state with
        takeovers := (s.state.takeovers.allow generation now policy).1 } },
      .error (.capacityExceeded policy.maxTakeoversPerWindow))) ∨
  (s.state.generation = generation ∧
    (s.state.ownerConn ≠ ⟨0⟩ → (s.state.takeovers.allow generation now policy).2 = true) ∧
    ∃ s' got, r = (s', .ok got) ∧ s'.state.generation = generation ∧
      s'.state.takeovers = (s.state.takeovers.allow generation now policy).1)

theorem attaches_attachLocked (policy : SessionPolicy) (scrollbackReplay : Bool) (s : Session)
    (generation : Generation) (size : WindowSize) (since : Option Nat) (now : Instant) :
    s.Attaches policy generation now
      (s.attachLocked policy scrollbackReplay generation size since now) := by
  unfold attachLocked attachCas
  by_cases hgen : s.state.generation = generation
  · rw [if_neg (not_not.mpr hgen)]
    dsimp only
    by_cases hrefused : s.state.ownerConn ≠ ⟨0⟩ ∧
        (s.state.takeovers.allow generation now policy).2 = false
    · rw [if_pos hrefused]
      exact .inr (.inl ⟨hgen, hrefused.1, hrefused.2, rfl⟩)
    · rw [if_neg hrefused]
      refine .inr (.inr ⟨hgen, fun howner => ?_, _, _, rfl, hgen, rfl⟩)
      exact Bool.eq_true_of_not_eq_false fun hfalse => hrefused ⟨howner, hfalse⟩
  · rw [if_pos hgen]
    exact .inl ⟨hgen, rfl⟩

/-- What comes after the locked section leaves the state alone. -/
theorem attachWithReplay_of_ok {s₁ : Session} {reg : Registration}
    (h : s.attachLocked policy scrollbackReplay generation size since now = (s₁, .ok reg)) :
    ∃ s', s.attachWithReplay policy scrollbackReplay generation size since now =
      (s', .ok (reg.conn, reg.streamOffset)) ∧ s'.state = s₁.state := by
  obtain ⟨-, -, -, -, -, hsub, -, -⟩ := attachLocked_ok h
  unfold attachWithReplay
  rw [h]
  dsimp only
  have hfor : ∀ s₂ : Session, s₂.io = s₁.io → s₂.subscriberFor reg.conn = some reg.conn := by
    intro s₂ hio
    rw [subscriberFor, hio, hsub]
    simp
  cases reg.evicted with
  | none =>
    simp only [hfor s₁ rfl]
    rcases reg.replay with _ | _ | _ <;> exact ⟨_, rfl, rfl⟩
  | some previous =>
    simp only [hfor (s₁.onOutbound previous (·.close CloseCode.takeover)) rfl]
    rcases reg.replay with _ | _ | _ <;> exact ⟨_, rfl, rfl⟩

theorem attaches_attachWithReplay (policy : SessionPolicy) (scrollbackReplay : Bool) (s : Session)
    (generation : Generation) (size : WindowSize) (since : Option Nat) (now : Instant) :
    s.Attaches policy generation now
      (s.attachWithReplay policy scrollbackReplay generation size since now) := by
  rcases attaches_attachLocked policy scrollbackReplay s generation size since now with
    ⟨hgen, heq⟩ | ⟨hgen, howner, hrefused, heq⟩ | ⟨hgen, hallowed, s₁, reg, heq, hgen₁, hlimiter⟩
  · refine .inl ⟨hgen, ?_⟩
    rw [attachWithReplay, heq]
  · refine .inr (.inl ⟨hgen, howner, hrefused, ?_⟩)
    rw [attachWithReplay, heq]
  · obtain ⟨s', hok, hstate⟩ := attachWithReplay_of_ok heq
    exact .inr (.inr ⟨hgen, hallowed, s', _, hok, by rw [hstate, hgen₁], by rw [hstate, hlimiter]⟩)

theorem takeovers_detach (s : Session) (conn : ConnGeneration) :
    (s.detach conn).state.takeovers = s.state.takeovers := by
  unfold detach
  split <;> rfl

theorem takeovers_onMissedPingLocked (s : Session) (conn : ConnGeneration) :
    (s.onMissedPingLocked conn).1.state.takeovers = s.state.takeovers := by
  unfold onMissedPingLocked
  split
  · rfl
  · dsimp only
    split <;> rfl

end Session

/-! ## Histories -/

/-- An attach that was admitted: whether it preempted a connection and whether the bucket was
charged. -/
structure Admitted where
  time : Instant
  generation : Generation
  preempting : Bool
  charged : Bool
  deriving DecidableEq, Repr

/-- A live session in use. The last two fields are history: the attaches that were admitted, the
newest first, and whether the generation is new and no attach has presented it yet. -/
structure AttachRun where
  session : Session
  clock : Instant
  admitted : List Admitted
  renewed : Bool
  deriving DecidableEq

namespace AttachRun

inductive Label where
  | attach (generation : Generation) (size : WindowSize) (since : Option Nat)
  | detach (conn : ConnGeneration)
  | missedPing (conn : ConnGeneration)
  | renew
  | elapse (d : Duration)
  deriving DecidableEq, Repr

def init (session : Session) (now : Instant) : AttachRun :=
  { session, clock := now, admitted := [], renewed := false }

/-- `attach_with_replay`. -/
def attach (policy : SessionPolicy) (scrollbackReplay : Bool) (w : AttachRun)
    (generation : Generation) (size : WindowSize) (since : Option Nat) :
    AttachRun × Except Error (ConnGeneration × Nat) :=
  let r := w.session.attachWithReplay policy scrollbackReplay generation size since w.clock
  ({ w with
      session := r.1
      admitted := match r.2 with
        | .ok _ =>
          { time := w.clock
            generation
            preempting := decide (w.session.state.ownerConn ≠ ⟨0⟩)
            charged := decide (¬ w.session.state.takeovers.Fresh generation) &&
              (w.session.state.takeovers.allow generation w.clock policy).2 } :: w.admitted
        | .error _ => w.admitted
      renewed := w.renewed && decide (generation ≠ w.session.state.generation) }, r.2)

/-- One call. What `on_missed_ping` and `renew` do after their locked sections concerns the queue
of the evicted connection and the tokens. -/
def next (policy : SessionPolicy) (scrollbackReplay : Bool) (w : AttachRun) :
    Label → Option AttachRun
  | .attach generation size since => some (w.attach policy scrollbackReplay generation size since).1
  | .detach conn => some { w with session := w.session.detach conn }
  | .missedPing conn => some { w with session := (w.session.onMissedPingLocked conn).1 }
  | .renew => some { w with session := w.session.renewLocked.1, renewed := true }
  | .elapse d => some { w with clock := w.clock + d }

/-- The limiter of the session. -/
abbrev limiter (w : AttachRun) : TakeoverLimiter := w.session.state.takeovers

/-- The attaches that the bucket was charged for. -/
def paid (w : AttachRun) : List Admitted := w.admitted.filter (·.charged)

/-- When the bucket of a generation was charged, the newest first. -/
def charges (w : AttachRun) (generation : Generation) : List Instant :=
  (w.paid.filter fun e => decide (e.generation = generation)).map (·.time)

/-- The takeovers of a generation in an interval of the window's length. -/
def takeoversFrom (policy : SessionPolicy) (w : AttachRun) (generation : Generation) (a : Instant) :
    Nat :=
  w.admitted.countP fun e => decide (e.generation = generation ∧ e.preempting = true ∧
    a ≤ e.time ∧ e.time < a + policy.takeoverWindow)

/-- An admitted takeover of a generation less than a window's length ago. -/
def Recent (policy : SessionPolicy) (w : AttachRun) (generation : Generation) (e : Admitted) :
    Prop :=
  e.generation = generation ∧ e.preempting = true ∧ w.clock < e.time + policy.takeoverWindow

instance (policy : SessionPolicy) (w : AttachRun) (generation : Generation) (e : Admitted) :
    Decidable (Recent policy w generation e) := inferInstanceAs (Decidable (_ ∧ _ ∧ _))

/-! ## The invariant -/

/-- The bucket has counted its charges, each takeover was charged, and a generation that is new to
the limiter has had no attach and has no owner. -/
structure Budget (policy : SessionPolicy) (w : AttachRun) : Prop where
  tracks : FixedWindow.Tracks policy.maxTakeoversPerWindow policy.takeoverWindow w.limiter.window
    (w.charges w.limiter.generation) w.clock
  counted : w.limiter.count ≤ w.paid.length
  current : ∀ e ∈ w.paid.take w.limiter.count,
    e.generation = w.limiter.generation ∧ w.limiter.windowStart ≤ e.time
  bounded : ∀ generation a, FixedWindow.within policy.takeoverWindow a (w.charges generation) ≤
    2 * policy.maxTakeoversPerWindow
  charged : ∀ e ∈ w.admitted, e.preempting = true → e.charged = true
  behind : w.limiter.generation.val ≤ w.session.state.generation.val
  older : ∀ e ∈ w.admitted, e.generation.val ≤ w.session.state.generation.val
  first : w.limiter.firstAttachOfGeneration = true → w.limiter.count = 0
  fresh : w.limiter.Fresh w.session.state.generation →
    w.session.state.ownerConn = ⟨0⟩ ∧ ∀ e ∈ w.admitted, e.generation ≠ w.session.state.generation
  renewed : w.renewed = true → w.limiter.Fresh w.session.state.generation

variable {policy : SessionPolicy} {scrollbackReplay : Bool} {w w' : AttachRun} {l : Label}

theorem budget_init (name : SessionName) (generation : Generation) (size : WindowSize)
    (now : Instant) (scrollbackKib : Nat) (tierBestEffort : Bool) :
    (init (.new name generation size now scrollbackKib tierBestEffort policy) now).Budget policy where
  tracks := FixedWindow.tracks_new now
  counted := Nat.le_refl 0
  current e he := by cases he
  bounded generation a := Nat.zero_le _
  charged e he := by cases he
  behind := Nat.le_refl _
  older e he := by cases he
  first _ := rfl
  fresh _ := ⟨rfl, fun e he => by cases he⟩
  renewed h := by cases h

/-- A charge is one of its generation. -/
theorem charges_cons {e : Admitted} (hpaid : w'.paid = e :: w.paid) (generation : Generation) :
    w'.charges generation =
      if e.generation = generation then e.time :: w.charges generation
      else w.charges generation := by
  rw [charges, hpaid, List.filter_cons, charges]
  by_cases hgen : e.generation = generation <;> simp [hgen]

theorem charges_same (hpaid : w'.paid = w.paid) (generation : Generation) :
    w'.charges generation = w.charges generation := by rw [charges, hpaid, charges]

/-- What is charged to the window as it is when the next attach comes. -/
theorem Budget.roll (h : w.Budget policy) :
    (w.limiter.window.roll policy.takeoverWindow w.clock).count ≤ w.paid.length ∧
      ∀ e ∈ w.paid.take (w.limiter.window.roll policy.takeoverWindow w.clock).count,
        e.generation = w.limiter.generation ∧
          (w.limiter.window.roll policy.takeoverWindow w.clock).start ≤ e.time := by
  by_cases hover : w.limiter.window.start + policy.takeoverWindow ≤ w.clock
  · rw [FixedWindow.roll_of_over hover]
    refine ⟨Nat.zero_le _, ?_⟩
    intro e he
    cases he
  · rw [FixedWindow.roll_of_running hover]
    exact ⟨h.counted, h.current⟩

/-- What is charged to the window when it has been tried. -/
theorem Budget.tried (h : w.Budget policy) {e : Admitted}
    (hgen : e.generation = w.limiter.generation) (htime : e.time = w.clock)
    {window : FixedWindow Instant} {charged : Bool} {paid : List Admitted}
    (hcharge : w.limiter.window.charge policy.maxTakeoversPerWindow policy.takeoverWindow w.clock =
      (window, charged)) (hpaid : paid = if charged = true then e :: w.paid else w.paid) :
    window.count ≤ paid.length ∧ ∀ e' ∈ paid.take window.count,
      e'.generation = w.limiter.generation ∧ window.start ≤ e'.time := by
  obtain ⟨hcounted, hcurrent⟩ := h.roll
  by_cases hfull : policy.maxTakeoversPerWindow ≤
      (w.limiter.window.roll policy.takeoverWindow w.clock).count
  · rw [FixedWindow.charge_of_full hfull] at hcharge
    obtain ⟨rfl, rfl⟩ := Prod.mk.inj hcharge
    rw [hpaid]
    exact ⟨hcounted, hcurrent⟩
  · rw [FixedWindow.charge_of_room hfull] at hcharge
    obtain ⟨rfl, rfl⟩ := Prod.mk.inj hcharge
    rw [hpaid]
    refine ⟨Nat.succ_le_succ hcounted, ?_⟩
    rintro e' (_ | ⟨_, he⟩)
    · exact ⟨hgen, htime ▸ (h.tracks.roll (le_refl w.clock)).started⟩
    · exact hcurrent e' he

/-- A limiter that was asked is new to no generation any more. -/
theorem not_fresh_of_asked (hlgen : w'.limiter.generation = w.session.state.generation)
    (hfirst : w'.limiter.firstAttachOfGeneration = false)
    (hgen : w'.session.state.generation = w.session.state.generation) :
    ¬ w'.limiter.Fresh w'.session.state.generation := by
  rintro (hne | hyes)
  · exact hne (hlgen.trans hgen.symm)
  · rw [hfirst] at hyes
    cases hyes

/-- The first attach of a generation. -/
theorem Budget.free (h : w.Budget policy) (hfresh : w.limiter.Fresh w.session.state.generation)
    (hlimiter : w'.limiter = (w.limiter.allow w.session.state.generation w.clock policy).1)
    (hgen : w'.session.state.generation = w.session.state.generation) (hclock : w'.clock = w.clock)
    (hpaid : w'.paid = w.paid) (hadmitted : ∀ e ∈ w'.admitted, e ∈ w.admitted ∨
      e.generation = w.session.state.generation ∧ (e.preempting = true → e.charged = true))
    (hrenewed : w'.renewed = false) : w'.Budget policy := by
  obtain ⟨-, hlgen, hfirst, hwindow⟩ :=
    TakeoverLimiter.allow_of_fresh hfresh w.clock policy
  rw [← hlimiter] at hlgen hfirst hwindow
  have hcharges := charges_same hpaid
  have hnone : w.charges w.session.state.generation = [] := by
    rw [charges, List.map_eq_nil_iff, List.filter_eq_nil_iff]
    intro e he
    simp [(h.fresh hfresh).2 e (List.mem_of_mem_filter he)]
  have hzero : w'.limiter.count = 0 := by
    have hcount := congrArg FixedWindow.count hwindow
    split at hcount
    · rename_i hsame
      exact hcount.trans (h.first (hfresh.resolve_left (not_not.mpr hsame)))
    · exact hcount
  have hnotFresh := not_fresh_of_asked hlgen hfirst hgen
  refine ⟨?_, ?_, ?_, ?_, ?_, ?_, ?_, ?_, fun hyes => absurd hyes hnotFresh, fun hyes => ?_⟩
  · rw [hwindow, hcharges, hlgen, hclock]
    split
    · rename_i hsame
      rw [← hsame]
      exact h.tracks
    · rw [hnone]
      exact FixedWindow.tracks_new w.clock
  · rw [hzero]
    exact Nat.zero_le _
  · rw [hzero]
    intro e he
    cases he
  · intro generation a
    rw [hcharges]
    exact h.bounded generation a
  · exact fun e he => (hadmitted e he).elim (h.charged e) And.right
  · rw [hlgen, hgen]
  · rw [hgen]
    exact fun e he => (hadmitted e he).elim (h.older e) fun hnew => by rw [hnew.1]
  · exact fun _ => hzero
  · rw [hrenewed] at hyes
    cases hyes

/-- Every other attach, admitted or refused. -/
theorem Budget.charge (h : w.Budget policy) (hold : ¬ w.limiter.Fresh w.session.state.generation)
    (hlimiter : w'.limiter = (w.limiter.allow w.session.state.generation w.clock policy).1)
    (hgen : w'.session.state.generation = w.session.state.generation) (hclock : w'.clock = w.clock)
    {e : Admitted} (hpaid : w'.paid =
      if (w.limiter.allow w.session.state.generation w.clock policy).2 = true then e :: w.paid
      else w.paid)
    (heGen : e.generation = w.session.state.generation) (htime : e.time = w.clock)
    (hadmitted : ∀ e ∈ w'.admitted, e ∈ w.admitted ∨
      e.generation = w.session.state.generation ∧ (e.preempting = true → e.charged = true))
    (hrenewed : w'.renewed = false) : w'.Budget policy := by
  have hsame : w.limiter.generation = w.session.state.generation := not_not.mp (not_or.mp hold).1
  obtain ⟨hallow, hlgen, hfirst, hwindow⟩ :=
    TakeoverLimiter.allow_of_charged hold policy h.tracks.started
  rw [← hlimiter] at hlgen hfirst hwindow
  rw [hallow] at hpaid
  have htracks := h.tracks.charge (le_refl w.clock)
  have hnotFresh := not_fresh_of_asked hlgen hfirst hgen
  -- The log of this generation is that of the window.
  have hcharges : w'.charges w'.limiter.generation =
      if (w.limiter.window.charge policy.maxTakeoversPerWindow policy.takeoverWindow w.clock).2 = true
      then w.clock :: w.charges w.limiter.generation else w.charges w.limiter.generation := by
    rw [hlgen, hsame]
    split
    · rename_i hyes
      rw [if_pos hyes] at hpaid
      rw [charges_cons hpaid, if_pos heGen, htime]
    · rename_i hno
      rw [if_neg hno] at hpaid
      exact charges_same hpaid _
  have hbounded : FixedWindow.Tracks policy.maxTakeoversPerWindow policy.takeoverWindow
      w'.limiter.window (w'.charges w'.limiter.generation) w'.clock := by
    rw [hwindow, hcharges, hclock]
    exact htracks
  have hcurrent : w'.limiter.window.count ≤ w'.paid.length ∧
      ∀ e' ∈ w'.paid.take w'.limiter.window.count,
        e'.generation = w'.limiter.generation ∧ w'.limiter.window.start ≤ e'.time := by
    rw [hlgen, ← hsame, hwindow]
    exact h.tried (heGen.trans hsame.symm) htime rfl hpaid
  refine ⟨hbounded, hcurrent.1, hcurrent.2, ?_, ?_, ?_, ?_, ?_, fun hyes => absurd hyes hnotFresh,
    fun hyes => ?_⟩
  · intro generation a
    by_cases hthis : generation = w'.limiter.generation
    · rw [hthis]
      exact hbounded.bounded a
    · have hother : w'.charges generation = w.charges generation := by
        split at hpaid
        · rw [charges_cons hpaid, if_neg fun hyes => hthis (hyes.symm.trans (heGen.trans hlgen.symm))]
        · exact charges_same hpaid _
      rw [hother]
      exact h.bounded generation a
  · exact fun e he => (hadmitted e he).elim (h.charged e) And.right
  · rw [hlgen, hgen]
  · rw [hgen]
    exact fun e he => (hadmitted e he).elim (h.older e) fun hnew => by rw [hnew.1]
  · intro hyes
    rw [hfirst] at hyes
    cases hyes
  · rw [hrenewed] at hyes
    cases hyes

/-- A call that leaves the limiter and the generation alone, and at most gives the session up. -/
theorem Budget.same (h : w.Budget policy) (hlimiter : w'.limiter = w.limiter)
    (hgen : w'.session.state.generation = w.session.state.generation)
    (howner : w'.session.state.ownerConn = w.session.state.ownerConn ∨
      w'.session.state.ownerConn = ⟨0⟩)
    (hadmitted : w'.admitted = w.admitted) (hclock : w.clock ≤ w'.clock)
    (hrenewed : w'.renewed = true → w.renewed = true) : w'.Budget policy := by
  have hpaid : w'.paid = w.paid := by rw [paid, hadmitted, paid]
  have hcharges := charges_same hpaid
  refine ⟨?_, ?_, ?_, ?_, ?_, ?_, ?_, ?_, ?_, ?_⟩
  · rw [hlimiter, hcharges]
    exact h.tracks.wait hclock
  · rw [hlimiter, hpaid]
    exact h.counted
  · rw [hlimiter, hpaid]
    exact h.current
  · intro generation a
    rw [hcharges]
    exact h.bounded generation a
  · rw [hadmitted]
    exact h.charged
  · rw [hlimiter, hgen]
    exact h.behind
  · rw [hadmitted, hgen]
    exact h.older
  · rw [hlimiter]
    exact h.first
  · rw [hlimiter, hgen, hadmitted]
    intro hfresh
    obtain ⟨hfree, hnone⟩ := h.fresh hfresh
    exact ⟨howner.elim (fun heq => heq.trans hfree) id, hnone⟩
  · rw [hlimiter, hgen]
    exact fun hyes => h.renewed (hrenewed hyes)

theorem Budget.renew (h : w.Budget policy) :
    Budget policy { w with session := w.session.renewLocked.1, renewed := true } := by
  have hbehind := h.behind
  have hnew : w.limiter.generation ≠ w.session.state.generation.succ := by
    intro heq
    rw [heq, Generation.succ_val] at hbehind
    exact Nat.not_succ_le_self _ hbehind
  refine { h with behind := ?_, older := fun e he => ?_, fresh := fun _ => ⟨rfl, fun e he heq => ?_⟩,
                  renewed := fun _ => .inl hnew }
  · exact Nat.le_succ_of_le hbehind
  · exact Nat.le_succ_of_le (h.older e he)
  · have hle := h.older e he
    have heq : e.generation = w.session.state.generation.succ := heq
    rw [heq, Generation.succ_val] at hle
    exact Nat.not_succ_le_self _ hle

theorem Budget.attach (h : w.Budget policy) (generation : Generation) (size : WindowSize)
    (since : Option Nat) :
    (w.attach policy scrollbackReplay generation size since).1.Budget policy := by
  rcases w.session.attaches_attachWithReplay policy scrollbackReplay generation size since
      w.clock with
    ⟨-, heq⟩ | ⟨rfl, howner, hrefused, heq⟩ | ⟨rfl, hallowed, s', got, heq, hgen, hlimiter⟩
  · rw [AttachRun.attach, heq]
    refine h.same rfl rfl (.inl rfl) rfl (Nat.le_refl _) fun hyes => ?_
    exact (Bool.and_eq_true_iff.mp hyes).1
  · have hold : ¬ w.limiter.Fresh w.session.state.generation := by
      intro hfresh
      rw [(TakeoverLimiter.allow_of_fresh hfresh w.clock policy).1] at hrefused
      cases hrefused
    rw [AttachRun.attach, heq]
    refine h.charge (e := ⟨w.clock, w.session.state.generation, false, true⟩) hold rfl rfl rfl ?_ rfl
      rfl (fun e he => .inl he) (by simp)
    rw [if_neg (by rw [hrefused]; exact Bool.false_ne_true)]
    rfl
  · rw [AttachRun.attach, heq]
    by_cases hfresh : w.limiter.Fresh w.session.state.generation
    · refine h.free hfresh hlimiter hgen rfl ?_ ?_ (by simp)
      · exact List.filter_cons_of_neg (by simp [hfresh])
      · rintro e (_ | ⟨_, he⟩)
        · exact .inr ⟨rfl, fun hyes => absurd (h.fresh hfresh).1 (of_decide_eq_true hyes)⟩
        · exact .inl he
    · refine h.charge hfresh hlimiter hgen rfl (e := ⟨w.clock, w.session.state.generation,
        decide (w.session.state.ownerConn ≠ ⟨0⟩), true⟩) ?_ rfl rfl ?_ (by simp)
      · cases hcharged : (w.limiter.allow w.session.state.generation w.clock policy).2 <;>
          simp [paid, hfresh]
      · rintro e (_ | ⟨_, he⟩)
        · refine .inr ⟨rfl, fun hyes => ?_⟩
          have hallowed := hallowed (of_decide_eq_true hyes)
          simp [hfresh, hallowed]
        · exact .inl he

/-- One call. -/
theorem Budget.next (h : w.Budget policy) (hnext : w.next policy scrollbackReplay l = some w') :
    w'.Budget policy := by
  cases l with
  | attach generation size since =>
    obtain rfl := Option.some.inj hnext
    exact h.attach generation size since
  | detach conn =>
    obtain rfl := Option.some.inj hnext
    refine h.same (w.session.takeovers_detach conn)
      (congrArg Session.Life.generation (w.session.life_detach conn)) ?_ rfl (Nat.le_refl _) id
    have hfence := congrArg Session.Fence.ownerConn (w.session.fence_detach conn)
    split at hfence
    · exact .inr hfence
    · exact .inl hfence
  | missedPing conn =>
    obtain rfl := Option.some.inj hnext
    refine h.same (w.session.takeovers_onMissedPingLocked conn)
      (congrArg Session.Life.generation (w.session.life_onMissedPingLocked conn)) ?_ rfl
      (Nat.le_refl _) id
    rcases w.session.fence_onMissedPingLocked conn with ⟨hfence, -⟩ | ⟨-, hfence⟩
    · exact .inl (congrArg Session.Fence.ownerConn hfence)
    · exact .inr (congrArg Session.Fence.ownerConn hfence)
  | renew =>
    obtain rfl := Option.some.inj hnext
    exact h.renew
  | elapse d =>
    obtain rfl := Option.some.inj hnext
    exact h.same rfl rfl (.inl rfl) rfl (Nat.le_add_right _ _) id

/-! ## What the budget allows -/

/-- At most twice the budget in any interval of the window's length. -/
def Bounded (policy : SessionPolicy) (w : AttachRun) : Prop :=
  ∀ generation a, w.takeoversFrom policy generation a ≤ 2 * policy.maxTakeoversPerWindow

/-- The first attach with a new generation is admitted. -/
def Recovers (policy : SessionPolicy) (scrollbackReplay : Bool) (w : AttachRun) : Label → Prop
  | .attach generation size since => w.renewed = true → generation = w.session.state.generation →
      ∃ got, (w.attach policy scrollbackReplay generation size since).2 = .ok got
  | _ => True

/-- Takeovers are charged. -/
theorem Budget.toBounded (h : w.Budget policy) : w.Bounded policy := by
  intro generation a
  refine le_trans ?_ (h.bounded generation a)
  rw [FixedWindow.within, charges, List.countP_map, List.countP_filter, paid, List.countP_filter]
  refine List.countP_mono_left fun e he hyes => ?_
  obtain ⟨hgen, hpreempting, hfrom, hto⟩ := of_decide_eq_true hyes
  simp [hgen, hfrom, hto, h.charged e he hpreempting]

theorem Budget.recovers (h : w.Budget policy) : w.Recovers policy scrollbackReplay l := by
  cases l with
  | attach generation size since =>
    intro hrenewed hgeneration
    obtain ⟨hfree, -⟩ := h.fresh (h.renewed hrenewed)
    rcases w.session.attaches_attachWithReplay policy scrollbackReplay generation size since
        w.clock with
      ⟨hgen, -⟩ | ⟨-, howner, -⟩ | ⟨-, -, s', got, heq, -⟩
    · exact absurd hgeneration.symm hgen
    · exact absurd hfree howner
    · exact ⟨got, congrArg Prod.snd heq⟩
  | detach | missedPing | renew | elapse => trivial

/-- **The takeover rate is bounded, and a renew opens the session again**: in every state and in
every attach of every run. -/
theorem bounded_and_recovers (policy : SessionPolicy) (scrollbackReplay : Bool) (name : SessionName)
    (generation : Generation) (size : WindowSize) (now : Instant) (scrollbackKib : Nat)
    (tierBestEffort : Bool) (run : List Label) :
    Trace.AllStates (next policy scrollbackReplay) (Bounded policy)
        (init (.new name generation size now scrollbackKib tierBestEffort policy) now) run ∧
      Trace.AllSteps (next policy scrollbackReplay) (Recovers policy scrollbackReplay)
        (init (.new name generation size now scrollbackKib tierBestEffort policy) now) run := by
  have hall : Trace.AllStates (next policy scrollbackReplay) (Budget policy)
      (init (.new name generation size now scrollbackKib tierBestEffort policy) now) run :=
    .of_next (fun _ _ _ h hn => h.next hn)
      (budget_init name generation size now scrollbackKib tierBestEffort)
  exact ⟨hall.imp fun _ h => h.toBounded, .of_invariant (fun _ _ _ h _ => h.recovers) hall⟩

/-! ## What a refusal means -/

/-- A takeover is refused as rate limited only if the budget was spent on takeovers. -/
def RefusesSpent (policy : SessionPolicy) (scrollbackReplay : Bool) (w : AttachRun) : Label → Prop
  | .attach generation size since =>
      (w.attach policy scrollbackReplay generation size since).2 =
          .error (.capacityExceeded policy.maxTakeoversPerWindow) →
        policy.maxTakeoversPerWindow ≤
          w.admitted.countP fun e => decide (Recent policy w generation e)
  | _ => True

/-- When a takeover finds the window full, the attaches of an unowned session that the window was
charged for are no more than the takeovers that it does not have on its account any more but that
are less than its length ago. -/
def SpendsOnTakeovers (policy : SessionPolicy) (w : AttachRun) : Label → Prop
  | .attach generation _ _ =>
      w.session.state.generation = generation → w.session.state.ownerConn ≠ ⟨0⟩ →
      ¬ w.limiter.Fresh generation → w.clock < w.limiter.windowStart + policy.takeoverWindow →
      policy.maxTakeoversPerWindow ≤ w.limiter.count →
        ((w.paid.take w.limiter.count).countP fun e => !e.preempting) ≤
          (w.paid.drop w.limiter.count).countP fun e => decide (Recent policy w generation e)
  | _ => True

/-- Every takeover is on the account of some window. -/
theorem Budget.countP_recent (h : w.Budget policy) (generation : Generation) :
    (w.admitted.countP fun e => decide (Recent policy w generation e)) =
      w.paid.countP fun e => decide (Recent policy w generation e) := by
  rw [paid, List.countP_filter]
  refine List.countP_congr fun e he => ?_
  simp only [Bool.and_eq_true, decide_eq_true_eq]
  exact ⟨fun hrecent => ⟨hrecent, h.charged e he hrecent.2.1⟩, And.left⟩

/-- Whether a full window was spent on takeovers. -/
theorem Budget.spent_iff (h : w.Budget policy)
    (hrunning : w.clock < w.limiter.windowStart + policy.takeoverWindow)
    (hfull : policy.maxTakeoversPerWindow ≤ w.limiter.count) :
    (policy.maxTakeoversPerWindow ≤
        w.admitted.countP fun e => decide (Recent policy w w.limiter.generation e)) ↔
      ((w.paid.take w.limiter.count).countP fun e => !e.preempting) ≤
        (w.paid.drop w.limiter.count).countP fun e =>
          decide (Recent policy w w.limiter.generation e) := by
  have hroom : w.limiter.count ≤ policy.maxTakeoversPerWindow := h.tracks.room
  have hsplit := congrArg (List.countP fun e => decide (Recent policy w w.limiter.generation e))
    (List.take_append_drop w.limiter.count w.paid)
  rw [List.countP_append] at hsplit
  -- In the window every takeover is recent.
  have hwindow : ((w.paid.take w.limiter.count).countP fun e =>
      decide (Recent policy w w.limiter.generation e)) =
        (w.paid.take w.limiter.count).countP fun e => e.preempting := by
    refine List.countP_congr fun e he => ?_
    obtain ⟨hgen, hstart⟩ := h.current e he
    rw [decide_eq_true_iff]
    refine ⟨fun hrecent => hrecent.2.1, fun hpreempting => ⟨hgen, hpreempting, ?_⟩⟩
    exact hrunning.trans_le (Nat.add_le_add_right hstart _)
  have hlength := List.length_eq_countP_add_countP (fun e : Admitted => e.preempting)
    (l := w.paid.take w.limiter.count)
  rw [List.length_take, Nat.min_eq_left h.counted] at hlength
  simp only [Bool.not_eq_true] at hlength
  rw [h.countP_recent, ← hsplit, hwindow]
  have hnot : ((w.paid.take w.limiter.count).countP fun e => !e.preempting) =
      (w.paid.take w.limiter.count).countP fun e => decide (e.preempting = false) := by
    refine List.countP_congr fun e _ => ?_
    cases e.preempting <;> simp
  rw [hnot]
  omega

theorem Budget.refusesSpent_iff (h : w.Budget policy) :
    w.RefusesSpent policy scrollbackReplay l ↔ w.SpendsOnTakeovers policy l := by
  cases l with
  | detach | missedPing | renew | elapse => exact Iff.rfl
  | attach generation size since =>
    have hcases := w.session.attaches_attachWithReplay policy scrollbackReplay generation size since
      w.clock
    have hcharge := fun hold : ¬ w.limiter.Fresh generation =>
      (TakeoverLimiter.allow_of_charged hold policy h.tracks.started).1
    constructor
    · rintro hspent hgen howner hold hrunning hfull
      have hsame : w.limiter.generation = generation := not_not.mp (not_or.mp hold).1
      rw [← hsame] at hspent ⊢
      refine (h.spent_iff hrunning hfull).mp (hspent ?_)
      have hrefused : (w.limiter.allow generation w.clock policy).2 = false := by
        rw [hcharge hold, FixedWindow.charge_eq_false_iff,
          FixedWindow.roll_of_running (w := w.limiter.window) (Nat.not_le.mpr hrunning)]
        exact hfull
      rcases hcases with ⟨hother, -⟩ | ⟨-, -, -, heq⟩ | ⟨-, hallowed, -⟩
      · exact absurd hgen hother
      · rw [hsame, AttachRun.attach, heq]
      · have hallowed := hallowed howner
        rw [hrefused] at hallowed
        cases hallowed
    · intro hspends hresult
      rcases hcases with ⟨-, heq⟩ | ⟨hgen, howner, hrefused, -⟩ | ⟨-, -, s', got, heq, -⟩
      · rw [AttachRun.attach, heq] at hresult
        cases hresult
      · have hold : ¬ w.limiter.Fresh generation := by
          intro hfresh
          rw [(TakeoverLimiter.allow_of_fresh hfresh w.clock policy).1] at hrefused
          cases hrefused
        have hsame : w.limiter.generation = generation := not_not.mp (not_or.mp hold).1
        rw [hcharge hold, FixedWindow.charge_eq_false_iff] at hrefused
        by_cases hover : w.limiter.window.start + policy.takeoverWindow ≤ w.clock
        · -- Nothing is ever allowed.
          rw [FixedWindow.roll_of_over hover] at hrefused
          exact hrefused.trans (Nat.zero_le _)
        · rw [FixedWindow.roll_of_running hover] at hrefused
          have hrunning := Nat.lt_of_not_le hover
          have hspends := hspends hgen howner hold hrunning hrefused
          rw [← hsame] at hspends ⊢
          exact (h.spent_iff hrunning hrefused).mpr hspends
      · rw [AttachRun.attach, heq] at hresult
        cases hresult

/-- **A takeover is refused for takeovers only**, in every attach of a run, exactly when no full
window was charged for more attaches of an unowned session than it is short of takeovers. -/
theorem refusesSpent_iff_spendsOnTakeovers (policy : SessionPolicy) (scrollbackReplay : Bool)
    (name : SessionName) (generation : Generation) (size : WindowSize) (now : Instant)
    (scrollbackKib : Nat) (tierBestEffort : Bool) (run : List Label) :
    Trace.AllSteps (next policy scrollbackReplay) (RefusesSpent policy scrollbackReplay)
        (init (.new name generation size now scrollbackKib tierBestEffort policy) now) run ↔
      Trace.AllSteps (next policy scrollbackReplay) (SpendsOnTakeovers policy)
        (init (.new name generation size now scrollbackKib tierBestEffort policy) now) run :=
  Trace.AllSteps.congr (fun _ _ h => h.refusesSpent_iff)
    (Trace.AllStates.of_next (fun _ _ _ h hn => h.next hn)
      (budget_init name generation size now scrollbackKib tierBestEffort))

/-- An attach that finds the session unowned is the first one that its generation admits. -/
def OnlyFirstUnowned (w : AttachRun) : Label → Prop
  | .attach generation _ _ =>
      w.session.state.generation = generation → w.session.state.ownerConn = ⟨0⟩ →
        ∀ e ∈ w.admitted, e.generation ≠ generation
  | _ => True

/-- Whatever was charged preempted somebody, and a generation that the limiter has seen has
admitted an attach. -/
structure Preempts (w : AttachRun) : Prop where
  charged : ∀ e ∈ w.admitted, e.charged = true → e.preempting = true
  asked : ¬ w.limiter.Fresh w.session.state.generation →
    ∃ e ∈ w.admitted, e.generation = w.session.state.generation

theorem Preempts.same (h : w.Preempts) (hlimiter : w'.limiter = w.limiter)
    (hgen : w'.session.state.generation = w.session.state.generation)
    (hadmitted : w'.admitted = w.admitted) : w'.Preempts := by
  refine ⟨?_, ?_⟩
  · rw [hadmitted]
    exact h.charged
  · rw [hlimiter, hgen, hadmitted]
    exact h.asked

theorem Preempts.attach (h : w.Preempts) {generation : Generation} {size : WindowSize}
    {since : Option Nat} (hfirst : w.OnlyFirstUnowned (.attach generation size since)) :
    (w.attach policy scrollbackReplay generation size since).1.Preempts := by
  rcases w.session.attaches_attachWithReplay policy scrollbackReplay generation size since
      w.clock with
    ⟨-, heq⟩ | ⟨rfl, howner, hrefused, heq⟩ | ⟨rfl, hallowed, s', got, heq, hgen, hlimiter⟩
  · rw [AttachRun.attach, heq]
    exact h.same rfl rfl rfl
  · rw [AttachRun.attach, heq]
    refine ⟨h.charged, fun _ => h.asked fun hfresh => ?_⟩
    rw [(TakeoverLimiter.allow_of_fresh hfresh w.clock policy).1] at hrefused
    cases hrefused
  · rw [AttachRun.attach, heq]
    refine ⟨?_, fun _ => ⟨_, List.mem_cons_self, hgen.symm⟩⟩
    rintro e (_ | ⟨_, he⟩) hcharged
    · -- An unowned session that was charged had admitted an attach of this generation.
      refine decide_eq_true fun howner => ?_
      obtain ⟨e, he, hsame⟩ := h.asked (of_decide_eq_true (Bool.and_eq_true_iff.mp hcharged).1)
      exact hfirst rfl howner e he hsame
    · exact h.charged e he hcharged

theorem Preempts.next (h : w.Preempts) (hbudget : w.Budget policy) (hfirst : w.OnlyFirstUnowned l)
    (hnext : w.next policy scrollbackReplay l = some w') : w'.Preempts := by
  cases l with
  | attach generation size since =>
    obtain rfl := Option.some.inj hnext
    exact h.attach hfirst
  | detach conn =>
    obtain rfl := Option.some.inj hnext
    exact h.same (w.session.takeovers_detach conn)
      (congrArg Session.Life.generation (w.session.life_detach conn)) rfl
  | missedPing conn =>
    obtain rfl := Option.some.inj hnext
    exact h.same (w.session.takeovers_onMissedPingLocked conn)
      (congrArg Session.Life.generation (w.session.life_onMissedPingLocked conn)) rfl
  | renew =>
    obtain rfl := Option.some.inj hnext
    exact ⟨h.charged, fun hold => absurd (hbudget.renew.renewed rfl) hold⟩
  | elapse d =>
    obtain rfl := Option.some.inj hnext
    exact h.same rfl rfl rfl

/-- A window that was charged for takeovers only is spent on takeovers. -/
theorem Preempts.spendsOnTakeovers (h : w.Preempts) : w.SpendsOnTakeovers policy l := by
  cases l with
  | detach | missedPing | renew | elapse => trivial
  | attach generation size since =>
    intro _ _ _ _ _
    have hnone : ((w.paid.take w.limiter.count).countP fun e => !e.preempting) = 0 := by
      refine List.countP_eq_zero.mpr fun e he => ?_
      obtain ⟨hadmitted, hcharged⟩ := List.mem_filter.mp (List.mem_of_mem_take he)
      simp [h.charged e hadmitted hcharged]
    rw [hnone]
    exact Nat.zero_le _

/-- Where no attach of an unowned session is made but the first one of a generation, every full
window was spent on takeovers. -/
theorem spendsOnTakeovers_of_onlyFirstUnowned (policy : SessionPolicy) (scrollbackReplay : Bool)
    (name : SessionName) (generation : Generation) (size : WindowSize) (now : Instant)
    (scrollbackKib : Nat) (tierBestEffort : Bool) {run : List Label}
    (h : Trace.AllSteps (next policy scrollbackReplay) OnlyFirstUnowned
      (init (.new name generation size now scrollbackKib tierBestEffort policy) now) run) :
    Trace.AllSteps (next policy scrollbackReplay) (SpendsOnTakeovers policy)
      (init (.new name generation size now scrollbackKib tierBestEffort policy) now) run := by
  have hall : Trace.AllStates (next policy scrollbackReplay) (fun w => w.Budget policy ∧ w.Preempts)
      (init (.new name generation size now scrollbackKib tierBestEffort policy) now) run := by
    refine Trace.AllStates.of_invariant (fun w l w' hw hfirst hnext => ?_) ⟨?_, ?_⟩ h
    · exact ⟨hw.1.next hnext, hw.2.next hw.1 hfirst hnext⟩
    · exact budget_init name generation size now scrollbackKib tierBestEffort
    · refine ⟨fun e he => absurd he List.not_mem_nil, fun hold => ?_⟩
      exact absurd (.inr rfl) hold
  exact Trace.AllSteps.of_invariant (fun _ _ _ hw _ => hw.2.spendsOnTakeovers) hall

/-- A client that comes back three times after a detach. -/
def comesBack : List Label :=
  [.attach ⟨1⟩ .default none, .detach ⟨1⟩, .attach ⟨1⟩ .default none, .detach ⟨2⟩,
    .attach ⟨1⟩ .default none, .detach ⟨3⟩, .attach ⟨1⟩ .default none]

/-- Nobody has preempted anybody, and the first takeover is refused. -/
theorem comesBack_refused : ¬ Trace.AllSteps (next .default true) (RefusesSpent .default true)
    (init (.new .sh ⟨1⟩ .default 0 0 false .default) 0)
    (comesBack ++ [.attach ⟨1⟩ .default none]) := by
  intro hall
  obtain ⟨w, hspent, hw⟩ := hall.observe
    (f := fun w => ((w.attach .default true ⟨1⟩ .default none).2,
      w.admitted.countP fun e => decide (Recent .default w ⟨1⟩ e)))
    (a := (.error (.capacityExceeded 3), 0)) rfl rfl
  obtain ⟨hrefused, hnone⟩ := Prod.mk.inj hw
  exact absurd ((hspent hrefused).trans (Nat.le_of_eq hnone)) (by decide)

end AttachRun

end OpenabPty
