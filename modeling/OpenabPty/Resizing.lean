import OpenabPty.Takeovers

/-!
# The recorded window size and the kernel's

An attach and a `resize` frame both record a size under the session lock and pass it to
`PtyControl::resize` later, and a `resize` checks the fence before it records. A takeover that
falls in between leaves a size of the replaced connection behind.
-/

namespace OpenabPty

/-- Where a client is: in the rest of its attach, between two frames, or in a `resize` whose owner
check it has passed. A client whose attach or whose `resize` is refused is gone. -/
inductive ClientPc where
  | subscriberFor (conn : ConnGeneration) (size : WindowSize)
  | attachControl (conn : ConnGeneration) (size : WindowSize)
  | idle (conn : ConnGeneration)
  | setSize (conn : ConnGeneration) (size : WindowSize)
  | resizeControl (conn : ConnGeneration) (size : WindowSize)
  | gone
  deriving DecidableEq, Repr

def ClientPc.conn : ClientPc → Option ConnGeneration
  | .subscriberFor conn _ | .attachControl conn _ | .idle conn | .setSize conn _
  | .resizeControl conn _ => some conn
  | .gone => none

/-- The client has no attach and no `resize` on its way. -/
def ClientPc.finished : ClientPc → Bool
  | .idle _ | .gone => true
  | .subscriberFor .. | .attachControl .. | .setSize .. | .resizeControl .. => false

/-- The client is about to record a size. -/
def ClientPc.records : ClientPc → Bool
  | .setSize .. => true
  | .subscriberFor .. | .attachControl .. | .idle _ | .resizeControl .. | .gone => false

/-- A session and its clients in the order of their attaches. The last two fields are history: the
size of the last attach, and the sizes of the resizes that passed the owner check after it. -/
structure Resizing where
  session : Session
  clients : List ClientPc
  attached : Option WindowSize
  later : List WindowSize
  deriving DecidableEq

/-- What the locked section of an attach does to the sizes. -/
theorem Session.attachLocked_sizes (s : Session) (policy : SessionPolicy) (scrollbackReplay : Bool)
    (generation : Generation) (size : WindowSize) (since : Option Nat) (now : Instant) :
    (∃ s' error, s.attachLocked policy scrollbackReplay generation size since now =
        (s', .error error) ∧ s'.fence = s.fence ∧ s'.state.size = s.state.size ∧
      s'.control = s.control) ∨
    (∃ s' reg, s.attachLocked policy scrollbackReplay generation size since now = (s', .ok reg) ∧
      s'.fence = s.fence.taken ∧ reg.conn = ⟨s.fence.nextConn⟩ ∧ s'.state.size = size) := by
  unfold attachLocked attachCas
  by_cases hgen : s.state.generation ≠ generation
  · rw [if_pos hgen]
    exact .inl ⟨_, _, rfl, rfl, rfl, rfl⟩
  · rw [if_neg hgen]
    dsimp only
    by_cases hrefused : s.state.ownerConn ≠ ⟨0⟩ ∧
        (s.state.takeovers.allow generation now policy).2 = false
    · rw [if_pos hrefused]
      exact .inl ⟨_, _, rfl, rfl, rfl, rfl⟩
    · rw [if_neg hrefused]
      exact .inr ⟨_, _, rfl, rfl, rfl, rfl⟩

namespace Resizing

inductive Label where
  | attach (generation : Generation) (size : WindowSize) (since : Option Nat) (now : Instant)
  | resize (i : Nat) (size : WindowSize)
  | step (i : Nat)
  deriving DecidableEq, Repr

def init (session : Session) : Resizing :=
  { session, clients := [], attached := none, later := [] }

def goto (w : Resizing) (i : Nat) (pc : ClientPc) : Resizing :=
  { w with clients := w.clients.set i pc }

/-- The locked section of `attach_with_replay`. -/
def attach (policy : SessionPolicy) (scrollbackReplay : Bool) (w : Resizing)
    (generation : Generation) (size : WindowSize) (since : Option Nat) (now : Instant) : Resizing :=
  match w.session.attachLocked policy scrollbackReplay generation size since now with
  | (session, .error _) => { w with session }
  | (session, .ok reg) =>
    { session
      clients := w.clients ++ [.subscriberFor reg.conn size]
      attached := some size
      later := [] }

/-- The next section of the client at index `i`. -/
def clientStep (w : Resizing) (i : Nat) : ClientPc → Option Resizing
  | .subscriberFor conn size =>
    some (w.goto i (if (w.session.subscriberFor conn).isSome then .attachControl conn size else .gone))
  | .attachControl conn size | .resizeControl conn size =>
    some ({ w with session := w.session.controlResize size }.goto i (.idle conn))
  | .setSize conn size =>
    some ({ w with session := w.session.setSize size }.goto i (.resizeControl conn size))
  | .idle _ | .gone => none

def next (policy : SessionPolicy) (scrollbackReplay : Bool) (w : Resizing) : Label → Option Resizing
  | .attach generation size since now =>
    some (w.attach policy scrollbackReplay generation size since now)
  | .resize i size =>
    match w.clients[i]? with
    | some (.idle conn) =>
      -- The owner check of `Session::resize`.
      some (if w.session.resizeAllowed conn then
          { w with later := w.later ++ [size] }.goto i (.setSize conn size)
        else w.goto i .gone)
    | _ => none
  | .step i => w.clients[i]?.bind (w.clientStep i)

/-- Once all clients have finished, the size last passed to `PtyControl::resize` is the recorded
one, and both are the size of the last attach or of a later resize of its connection. -/
def Agreed (w : Resizing) : Prop :=
  (∀ pc ∈ w.clients, pc.finished = true) → ∀ size, w.attached = some size →
    ∃ z, w.session.control = some z ∧ w.session.state.size = z ∧ (z = size ∨ z ∈ w.later)

/-- The client whose attach was the last. -/
def newest (w : Resizing) : Option ClientPc := w.clients[w.clients.length - 1]?

/-- A replaced connection records a size only if the owner is about to record another one, and
passes one on only if the owner has still to pass the recorded one on. -/
def Harmless (w : Resizing) : ClientPc → Prop
  | .setSize conn size =>
    conn = w.session.state.ownerConn ∨ size = w.session.state.size ∨ w.newest.any (·.records)
  | .attachControl conn size | .resizeControl conn size =>
    conn = w.session.state.ownerConn ∨ size = w.session.state.size ∨ w.newest.any (!·.finished)
  | .subscriberFor .. | .idle _ | .gone => True

instance (w : Resizing) : ∀ pc, Decidable (w.Harmless pc)
  | .setSize .. | .attachControl .. | .resizeControl .. => inferInstanceAs (Decidable (_ ∨ _ ∨ _))
  | .subscriberFor .. | .idle _ | .gone => isTrue trivial

/-- What the client does that goes on is harmless. -/
def OwnersLast (w : Resizing) : Label → Prop
  | .step i => ∀ pc ∈ w.clients[i]?, w.Harmless pc
  | .attach .. | .resize .. => True

instance (w : Resizing) : ∀ l, Decidable (w.OwnersLast l)
  | .step i => inferInstanceAs (Decidable (∀ pc ∈ w.clients[i]?, w.Harmless pc))
  | .attach .. | .resize .. => isTrue trivial

/-! ## The invariant -/

variable {policy : SessionPolicy} {scrollbackReplay : Bool} {w w' : Resizing} {l : Label}
  {i : Nat} {pc pc' : ClientPc} {size : WindowSize}

/-- The size is that of the last attach or of a later resize. -/
def Allowed (w : Resizing) (size : WindowSize) : Prop := w.attached = some size ∨ size ∈ w.later

/-- What the owner's client has done: it has passed the recorded size on, or it will. -/
def Keeps (w : Resizing) : ClientPc → Prop
  | .subscriberFor _ size | .attachControl _ size | .resizeControl _ size =>
    size = w.session.state.size ∧ w.Allowed size
  | .setSize _ size => w.Allowed size
  | .idle _ => w.session.control = some w.session.state.size ∧ w.Allowed w.session.state.size
  | .gone => False

/-- The clients have the connection numbers in order, and the last of them owns the session. -/
structure Numbered (w : Resizing) : Prop where
  fence : w.session.fence =
    { ownerConn := ⟨w.clients.length⟩, mirror := ⟨w.clients.length⟩,
      subscriber := if w.clients = [] then none else some ⟨w.clients.length⟩,
      nextConn := w.clients.length + 1 }
  numbered : ∀ i (pc : ClientPc), w.clients[i]? = some pc →
    ∀ conn, pc.conn = some conn → conn = ⟨i + 1⟩
  attached : w.attached ≠ none → w.clients ≠ []

/-- The owner's client keeps the two sizes together. -/
structure Kept (w : Resizing) : Prop extends w.Numbered where
  newest : ∀ pc, w.newest = some pc → w.Keeps pc

theorem kept_init (name : SessionName) (generation : Generation) (size : WindowSize)
    (now : Instant) (scrollbackKib : Nat) (tierBestEffort : Bool) :
    (init (.new name generation size now scrollbackKib tierBestEffort policy)).Kept where
  fence := rfl
  numbered i pc h := by simp [init] at h
  attached h := absurd rfl h
  newest pc h := by simp [Resizing.newest, init] at h

theorem Kept.agreed (h : w.Kept) : w.Agreed := by
  intro hfinished size hattached
  have hsome : w.clients ≠ [] := h.attached (by rw [hattached]; exact Option.some_ne_none size)
  obtain ⟨pc, hpc⟩ : ∃ pc, w.newest = some pc := by
    refine ⟨_, List.getElem?_eq_getElem ?_⟩
    exact Nat.sub_lt (List.length_pos_iff.mpr hsome) Nat.one_pos
  have hkeeps := h.newest pc hpc
  have hdone := hfinished pc (List.mem_of_getElem? hpc)
  cases pc with
  | idle conn =>
    refine ⟨_, hkeeps.1, rfl, hkeeps.2.imp_left fun hsize => ?_⟩
    exact Option.some.inj (hsize.symm.trans hattached)
  | gone => exact hkeeps.elim
  | subscriberFor | attachControl | setSize | resizeControl => cases hdone

/-- A client that goes on is the newest or leaves the newest as it is. -/
theorem newest_set (hi : w.clients[i]? = some pc) (hclients : w'.clients = w.clients.set i pc') :
    w'.newest = if i = w.clients.length - 1 then some pc' else w.newest := by
  have hlt := (List.getElem?_eq_some_iff.mp hi).1
  rw [newest, hclients, List.length_set, List.getElem?_set]
  by_cases hlast : i = w.clients.length - 1
  · rw [if_pos hlast, if_pos hlast, if_pos (hlast ▸ hlt)]
  · rw [if_neg hlast, if_neg hlast, newest]

/-- Whether it is the newest can be told from its connection. -/
theorem Numbered.owner_iff (h : w.Numbered) (hi : w.clients[i]? = some pc) {conn : ConnGeneration}
    (hconn : pc.conn = some conn) :
    conn = w.session.state.ownerConn ↔ i = w.clients.length - 1 := by
  have hlt := (List.getElem?_eq_some_iff.mp hi).1
  have howner : w.session.state.ownerConn = ⟨w.clients.length⟩ :=
    congrArg Session.Fence.ownerConn h.fence
  rw [h.numbered i pc hi conn hconn, howner, ConnGeneration.mk.injEq]
  omega

theorem Numbered.goto (h : w.Numbered) (hi : w.clients[i]? = some pc)
    (hfence : w'.session.fence = w.session.fence) (hclients : w'.clients = w.clients.set i pc')
    (hconn : ∀ conn, pc'.conn = some conn → pc.conn = some conn)
    (hattached : w'.attached = w.attached) : w'.Numbered := by
  have hlength : w'.clients.length = w.clients.length := by rw [hclients, List.length_set]
  have hempty : w'.clients = [] ↔ w.clients = [] := by
    rw [← List.length_eq_zero_iff, hlength, List.length_eq_zero_iff]
  refine ⟨?_, fun j p hj conn hp => ?_, fun hsome => ?_⟩
  · simp only [hfence, hlength, hempty]
    exact h.fence
  · rw [hclients, List.getElem?_set] at hj
    split at hj
    · rename_i hij
      split at hj
      · obtain rfl := Option.some.inj hj
        exact hij ▸ h.numbered i pc hi conn (hconn conn hp)
      · cases hj
    · exact h.numbered j p hj conn hp
  · rw [ne_eq, hempty]
    exact h.attached (hattached ▸ hsome)

/-- What the owner's client keeps depends on the two sizes. -/
theorem Keeps.mono (h : w.Keeps pc) (hsize : w'.session.state.size = w.session.state.size)
    (hcontrol : w'.session.control = w.session.control)
    (hallowed : ∀ z, w.Allowed z → w'.Allowed z) : w'.Keeps pc := by
  cases pc with
  | subscriberFor conn size | attachControl conn size | resizeControl conn size =>
    exact ⟨h.1.trans hsize.symm, hallowed size h.2⟩
  | setSize conn size => exact hallowed size h
  | idle conn =>
    refine ⟨?_, ?_⟩
    · rw [hcontrol, hsize]
      exact h.1
    · rw [hsize]
      exact hallowed _ h.2
  | gone => exact h

theorem Kept.attach (h : w.Kept) (generation : Generation) (size : WindowSize)
    (since : Option Nat) (now : Instant) :
    (w.attach policy scrollbackReplay generation size since now).Kept := by
  rcases w.session.attachLocked_sizes policy scrollbackReplay generation size since now with
    ⟨s', error, heq, hfence, hsize, hcontrol⟩ | ⟨s', reg, heq, hfence, hconn, hsize⟩
  · rw [Resizing.attach, heq]
    refine ⟨⟨hfence.trans h.fence, h.numbered, h.attached⟩, fun pc hpc => ?_⟩
    exact (h.newest pc hpc).mono hsize hcontrol fun _ hz => hz
  · have hnext : s'.fence = w.session.fence.taken := hfence
    rw [h.fence] at hnext hconn
    rw [Resizing.attach, heq]
    refine ⟨⟨?_, fun i pc hi conn hpc => ?_, fun _ => by simp⟩, fun pc hpc => ?_⟩
    · show s'.fence = _
      rw [hnext]
      simp [Session.Fence.taken]
    · rcases Nat.lt_or_ge i w.clients.length with hlt | hge
      · rw [List.getElem?_append_left hlt] at hi
        exact h.numbered i pc hi conn hpc
      · rw [List.getElem?_append_right hge] at hi
        rw [List.getElem?_singleton] at hi
        split at hi
        · rename_i hzero
          obtain rfl := Option.some.inj hi
          obtain rfl := Option.some.inj hpc
          have hindex : i = w.clients.length := Nat.le_antisymm (Nat.sub_eq_zero_iff_le.mp hzero) hge
          rw [hconn, hindex]
        · cases hi
    · have hpc : (w.clients ++ [_])[(w.clients ++ [_]).length - 1]? = some pc := hpc
      rw [List.length_append, List.length_singleton, Nat.add_sub_cancel,
        List.getElem?_append_right (Nat.le_refl _), Nat.sub_self] at hpc
      obtain rfl := Option.some.inj hpc
      exact ⟨hsize.symm, .inl rfl⟩

/-- A client that is not the newest goes on. -/
theorem Kept.other (h : w.Kept) (hi : w.clients[i]? = some pc) (hlast : i ≠ w.clients.length - 1)
    (hfence : w'.session.fence = w.session.fence) (hclients : w'.clients = w.clients.set i pc')
    (hconn : ∀ conn, pc'.conn = some conn → pc.conn = some conn)
    (hattached : w'.attached = w.attached)
    (hkeeps : ∀ pc, w.newest = some pc → w.Keeps pc → w'.Keeps pc) : w'.Kept := by
  refine ⟨h.toNumbered.goto hi hfence hclients hconn hattached, fun p hp => ?_⟩
  rw [newest_set hi hclients, if_neg hlast] at hp
  exact hkeeps p hp (h.newest p hp)

/-- The newest client goes on. -/
theorem Kept.last (h : w.Kept) (hi : w.clients[i]? = some pc) (hlast : i = w.clients.length - 1)
    (hfence : w'.session.fence = w.session.fence) (hclients : w'.clients = w.clients.set i pc')
    (hconn : ∀ conn, pc'.conn = some conn → pc.conn = some conn)
    (hattached : w'.attached = w.attached) (hkeeps : w.Keeps pc → w'.Keeps pc') : w'.Kept := by
  refine ⟨h.toNumbered.goto hi hfence hclients hconn hattached, fun p hp => ?_⟩
  rw [newest_set hi hclients, if_pos hlast] at hp
  obtain rfl := Option.some.inj hp
  refine hkeeps (h.newest pc ?_)
  rw [Resizing.newest, ← hlast]
  exact hi

/-- A `resize` frame. -/
theorem Kept.resize (h : w.Kept) {conn : ConnGeneration} (hi : w.clients[i]? = some (.idle conn))
    (size : WindowSize) :
    (if w.session.resizeAllowed conn then
      { w with later := w.later ++ [size] }.goto i (.setSize conn size)
    else w.goto i .gone).Kept := by
  have howner := h.toNumbered.owner_iff hi (rfl : (ClientPc.idle conn).conn = some conn)
  have hmirror : w.session.io.ownerConn = w.session.state.ownerConn :=
    (congrArg Session.Fence.mirror h.fence).trans (congrArg Session.Fence.ownerConn h.fence).symm
  by_cases hlast : i = w.clients.length - 1
  · have hallowed : w.session.resizeAllowed conn = true :=
      decide_eq_true (hmirror.trans (howner.mpr hlast).symm)
    rw [if_pos hallowed]
    exact h.last hi hlast rfl rfl (fun _ hc => hc) rfl fun _ =>
      .inr (List.mem_append_right _ (List.mem_singleton_self size))
  · have hrefused : w.session.resizeAllowed conn = false :=
      decide_eq_false fun heq => hlast (howner.mp (heq.symm.trans hmirror))
    rw [if_neg (by rw [hrefused]; exact Bool.false_ne_true)]
    exact h.other hi hlast rfl rfl (fun _ hc => by cases hc) rfl fun pc _ hkeeps =>
      hkeeps.mono rfl rfl fun _ hz => hz

/-- The size of an attach or of a `resize` is passed on. -/
theorem Kept.control (h : w.Kept) (hi : w.clients[i]? = some pc) {conn : ConnGeneration}
    (hconn : pc.conn = some conn)
    (hpasses : w.Keeps pc → size = w.session.state.size ∧ w.Allowed size)
    (hlast : conn = w.session.state.ownerConn ∨ size = w.session.state.size ∨
      w.newest.any (!·.finished)) :
    Kept ({ w with session := w.session.controlResize size }.goto i (.idle conn)) := by
  by_cases hnewest : i = w.clients.length - 1
  · refine h.last hi hnewest rfl rfl (fun _ hc => hc ▸ hconn) rfl fun hkeeps => ?_
    obtain ⟨hsize, hallowed⟩ := hpasses hkeeps
    exact ⟨congrArg some hsize, hsize ▸ hallowed⟩
  · have hother : size = w.session.state.size ∨ w.newest.any (!·.finished) :=
      hlast.resolve_left fun howner => hnewest ((h.toNumbered.owner_iff hi hconn).mp howner)
    refine h.other hi hnewest rfl rfl (fun _ hc => hc ▸ hconn) rfl fun pc hpc hkeeps => ?_
    cases pc with
    | idle conn =>
      -- The owner has passed the recorded size on, so this one has to be the same.
      rcases hother with hsize | hunfinished
      · exact ⟨congrArg some hsize, hkeeps.2⟩
      · rw [hpc] at hunfinished
        cases hunfinished
    | subscriberFor | attachControl | setSize | resizeControl | gone => exact hkeeps

/-- The size of a `resize` is recorded. -/
theorem Kept.setSize (h : w.Kept) {conn : ConnGeneration}
    (hi : w.clients[i]? = some (.setSize conn size))
    (hlast : conn = w.session.state.ownerConn ∨ size = w.session.state.size ∨
      w.newest.any (·.records)) :
    Kept ({ w with session := w.session.setSize size }.goto i (.resizeControl conn size)) := by
  by_cases hnewest : i = w.clients.length - 1
  · exact h.last hi hnewest rfl rfl (fun _ hc => hc) rfl fun hkeeps => ⟨rfl, hkeeps⟩
  · refine h.other hi hnewest rfl rfl (fun _ hc => hc) rfl fun pc hpc hkeeps => ?_
    rcases hlast with howner | hsize | hrecords
    · exact absurd ((h.toNumbered.owner_iff hi rfl).mp howner) hnewest
    · exact hkeeps.mono hsize rfl fun _ hz => hz
    · rw [hpc] at hrecords
      cases pc with
      | setSize => exact hkeeps
      | subscriberFor | attachControl | idle | resizeControl | gone => cases hrecords

/-- The rest of an attach goes on if its queue is still the subscriber. -/
theorem Kept.subscriberFor (h : w.Kept) {conn : ConnGeneration}
    (hi : w.clients[i]? = some (.subscriberFor conn size)) :
    Kept (w.goto i
      (if (w.session.subscriberFor conn).isSome then .attachControl conn size else .gone)) := by
  by_cases hnewest : i = w.clients.length - 1
  · have hsome : w.clients ≠ [] := by
      rintro hnil
      rw [hnil] at hi
      cases hi
    have howner : w.session.state.ownerConn = ⟨w.clients.length⟩ :=
      congrArg Session.Fence.ownerConn h.fence
    have hsubscriber : w.session.io.subscriber = some conn := by
      rw [(h.toNumbered.owner_iff hi rfl).mpr hnewest, howner]
      exact (congrArg Session.Fence.subscriber h.fence).trans (if_neg hsome)
    have hfor : (w.session.subscriberFor conn).isSome = true := by
      rw [Session.subscriberFor, hsubscriber]
      simp
    rw [if_pos hfor]
    exact h.last hi hnewest rfl rfl (fun _ hc => hc) rfl fun hkeeps => hkeeps
  · refine h.other hi hnewest rfl rfl (fun c hc => ?_) rfl fun pc _ hkeeps =>
      hkeeps.mono rfl rfl fun _ hz => hz
    split at hc
    · exact hc
    · cases hc

/-- One step. -/
theorem Kept.next (h : w.Kept) (hlast : w.OwnersLast l)
    (hnext : w.next policy scrollbackReplay l = some w') : w'.Kept := by
  cases l with
  | attach generation size since now =>
    obtain rfl := Option.some.inj hnext
    exact h.attach generation size since now
  | resize i size =>
    simp only [Resizing.next] at hnext
    split at hnext
    · rename_i conn hi
      obtain rfl := Option.some.inj hnext
      exact h.resize hi size
    · cases hnext
  | step i =>
    obtain ⟨pc, hi, hstep⟩ := Option.bind_eq_some_iff.mp hnext
    have hcond := hlast pc hi
    cases pc with
    | subscriberFor conn size =>
      obtain rfl := Option.some.inj hstep
      exact h.subscriberFor hi
    | attachControl conn size | resizeControl conn size =>
      obtain rfl := Option.some.inj hstep
      exact h.control hi rfl id hcond
    | setSize conn size =>
      obtain rfl := Option.some.inj hstep
      exact h.setSize hi hcond
    | idle | gone => cases hstep

/-- **The kernel's window size is the session's**, in every state of a run where no replaced
connection records or passes on a size that the owner does not replace. -/
theorem agreed_of_ownersLast (policy : SessionPolicy) (scrollbackReplay : Bool) (name : SessionName)
    (generation : Generation) (size : WindowSize) (now : Instant) (scrollbackKib : Nat)
    (tierBestEffort : Bool) (run : List Label)
    (hlast : Trace.AllSteps (next policy scrollbackReplay) OwnersLast
      (init (.new name generation size now scrollbackKib tierBestEffort policy)) run) :
    Trace.AllStates (next policy scrollbackReplay) Agreed
      (init (.new name generation size now scrollbackKib tierBestEffort policy)) run :=
  (Trace.AllStates.of_invariant (fun _ _ _ h hc hn => h.next hc hn)
    (kept_init name generation size now scrollbackKib tierBestEffort) hlast).imp
      fun _ h => h.agreed

/-- The owner resizes, is replaced, and the new owner resizes. -/
def inTurn : List Label :=
  [.attach ⟨1⟩ .default none 0, .step 0, .step 0, .resize 0 ⟨2, 2⟩, .step 0, .step 0,
    .attach ⟨1⟩ .default none 0, .step 1, .step 1, .resize 0 ⟨2, 2⟩, .resize 1 ⟨3, 3⟩, .step 1, .step 1]

theorem inTurn_agreed : Trace.AllStates (next .default true) Agreed
    (init (.new .sh ⟨1⟩ .default 0 0 false .default)) inTurn :=
  agreed_of_ownersLast .default true .sh ⟨1⟩ .default 0 0 false inTurn (by decide)

/-- A takeover falls between the two halves of a resize. -/
def outOfTurn : List Label :=
  [.attach ⟨1⟩ .default none 0, .step 0, .step 0, .resize 0 ⟨2, 2⟩, .step 0,
    .attach ⟨1⟩ .default none 0, .step 1, .step 1, .step 0]

/-- The kernel has the size of the replaced connection. -/
theorem outOfTurn_disagrees : ¬ Trace.AllStates (next .default true) Agreed
    (init (.new .sh ⟨1⟩ .default 0 0 false .default)) outOfTurn := by
  intro hall
  obtain ⟨w, hagreed, hw⟩ := hall.observe
    (f := fun w => (w.clients, w.attached, w.session.control, w.session.state.size))
    (a := ([.idle ⟨1⟩, .idle ⟨2⟩], some .default, some ⟨2, 2⟩, .default)) rfl
  obtain ⟨hclients, hw⟩ := Prod.mk.inj hw
  obtain ⟨hattached, hw⟩ := Prod.mk.inj hw
  obtain ⟨hcontrol, hsize⟩ := Prod.mk.inj hw
  obtain ⟨z, hz, hzsize, -⟩ := hagreed (by rw [hclients]; decide) _ hattached
  obtain rfl := Option.some.inj (hcontrol.symm.trans hz)
  exact absurd (hsize.symm.trans hzsize) (by decide)

end Resizing

end OpenabPty
