import OpenabPty.Handoff

/-!
# What the new connection is handed

An attach and the output pump interleave lock by lock. As long as the seam between the replay
and the live output is kept, the rest of the replay, what the connection was handed and what the
pump holds for it are the stream from the first byte of the replay on; each way to break the seam
costs a byte, doubles one, or turns two around.
-/

namespace OpenabPty

namespace Handoff

/-! ## The invariant -/

/-- Neither the subscriber slot nor the pump has seen the connection `conn` yet. -/
structure Older (h : Handoff) (conn : ConnGeneration) : Prop where
  subscriber : h.session.io.subscriber ≠ some conn
  output : ∀ bytes, h.output ≠ .push bytes (some conn)
  received : h.received = []

/-- The replay was read at `offset`: it ends there. -/
structure ReadAt (stream : List UInt8) (offset : Nat) (replay : Option Replay) : Prop where
  le : offset ≤ stream.length
  suffix : (replay.elim [] Replay.bytes) <:+ stream.take offset

end Handoff

/-- The chunk that is in the ring and will be pushed to `conn`. -/
def OutputPc.outstanding (conn : ConnGeneration) : OutputPc → List UInt8
  | .idle => []
  | .subscriber bytes => bytes
  | .push bytes current => if current = some conn then bytes else []

namespace Handoff

/-- The connection is in the slot: the rest of the replay, what it was handed and what the pump
holds for it make up the stream from the first byte on, and nothing overtook the replay. -/
structure Joined (h : Handoff) (reg : Registration) (waiting : List UInt8) : Prop where
  queue : ∃ o, h.session.newest = some o ∧ o.conn = reg.conn ∧ o.queue.bounds = backlogBounds
  subscriber : h.session.io.subscriber = some reg.conn
  start_le : reg.start ≤ h.stream.length
  bytes : waiting ++ (h.handed ++ h.output.outstanding reg.conn) = h.stream.drop reg.start
  order : waiting = [] ∨ h.handed = []

/-- What holds where the attach is. -/
def Phase (h : Handoff) : AttachPc → Prop
  | .cas => h.Older ⟨h.session.fence.nextConn⟩
  | .register conn => h.Older conn
  | .replace conn offset replay => h.Older conn ∧ ReadAt h.stream offset replay
  | .closePrevious reg previous => previous ≠ reg.conn ∧ h.Joined reg reg.replayed
  | .subscriberFor reg | .notice reg => h.Joined reg reg.replayed
  | .replayGap reg _ bytes | .replayBytes reg bytes => h.Joined reg bytes
  | .resize reg | .returned reg => h.Joined reg []
  | .refused _ => True

structure Inv (h : Handoff) : Prop where
  tracks : h.session.io.buffer.Tracks h.stream
  pending : h.output.pending <:+ h.stream
  phase : h.Phase h.attach

theorem inv_start {s : Session} {stream : List UInt8} (hs : s.Ready stream) :
    (start s stream).Inv := by
  refine ⟨hs.tracks, List.nil_suffix, ?_, nofun, rfl⟩
  refine (hs.valid.not_subscriber fun heq => ?_).2
  exact Nat.ne_of_lt hs.valid.next (congrArg ConnGeneration.val heq)

variable {h h' : Handoff} {reg : Registration} {waiting bytes : List UInt8} {call : AttachCall}

theorem handed_eq {o : Outbound} (ho : h.session.newest = some o) :
    h.handed = payload h.received ++ o.queue.buf := by
  rw [handed, ho, Option.elim_some]

theorem Phase.joined {pc : AttachPc} (hp : h.Phase pc)
    (hpc : pc.joined = some (reg, waiting)) : h.Joined reg waiting := by
  cases pc <;> cases hpc
  case closePrevious => exact hp.2
  all_goals exact hp

/-- What a step of anybody else has to keep. -/
theorem Phase.mono {pc : AttachPc} (hp : h.Phase pc)
    (hnext : h'.session.fence.nextConn = h.session.fence.nextConn)
    (holder : ∀ conn, h.Older conn → h'.Older conn)
    (hread : ∀ offset replay, ReadAt h.stream offset replay → ReadAt h'.stream offset replay)
    (hjoined : ∀ reg waiting, pc.joined = some (reg, waiting) → h.Joined reg waiting →
      h'.Joined reg waiting) : h'.Phase pc := by
  cases pc with
  | cas =>
    show h'.Older ⟨h'.session.fence.nextConn⟩
    rw [hnext]
    exact holder _ hp
  | register conn => exact holder conn hp
  | replace conn offset replay => exact ⟨holder conn hp.1, hread offset replay hp.2⟩
  | closePrevious reg previous => exact ⟨hp.1, hjoined reg _ rfl hp.2⟩
  | subscriberFor reg => exact hjoined reg _ rfl hp
  | notice reg => exact hjoined reg _ rfl hp
  | replayGap reg dropped bytes => exact hjoined reg _ rfl hp
  | replayBytes reg bytes => exact hjoined reg _ rfl hp
  | resize reg => exact hjoined reg _ rfl hp
  | returned reg => exact hjoined reg _ rfl hp
  | refused error => trivial

/-- A change of the session that leaves the new queue and the slot alone. -/
theorem Joined.frame (hj : h.Joined reg waiting) (hstream : h'.stream = h.stream)
    (houtput : h'.output = h.output) (hreceived : h'.received = h.received)
    (hsub : h'.session.io.subscriber = h.session.io.subscriber)
    (hnewest : ∀ o, h.session.newest = some o → o.conn = reg.conn →
      ∃ o', h'.session.newest = some o' ∧ o'.conn = o.conn ∧ o'.queue = o.queue) :
    h'.Joined reg waiting := by
  obtain ⟨o, ho, hconn, hbounds⟩ := hj.queue
  obtain ⟨o', ho', hconn', hqueue⟩ := hnewest o ho hconn
  have hhanded : h'.handed = h.handed := by
    rw [handed_eq ho, handed_eq ho', hqueue, hreceived]
  refine ⟨⟨o', ho', hconn'.trans hconn, by rw [hqueue]; exact hbounds⟩, ?_, ?_, ?_, ?_⟩
  · rw [hsub]
    exact hj.subscriber
  · rw [hstream]
    exact hj.start_le
  · rw [hhanded, houtput, hstream]
    exact hj.bytes
  · rw [hhanded]
    exact hj.order

theorem pushControl_keeps (event : ControlEvent) (o : Outbound) :
    (o.pushControl event).conn = o.conn ∧ (o.pushControl event).queue = o.queue := ⟨rfl, rfl⟩

theorem close_keeps (code : Nat) (o : Outbound) :
    (o.close code).conn = o.conn ∧ (o.close code).queue = o.queue :=
  ⟨o.close_conn code, o.close_queue code⟩

/-- A push to the new queue, within its backlog. -/
theorem Joined.pushBytes (hj : h.Joined reg waiting) (hfits : h.Fits reg.conn bytes) :
    ∃ o o' : Outbound, h.session.newest = some o ∧
      (h.session.onOutbound reg.conn (·.pushBytes bytes)).newest = some o' ∧
      o'.conn = reg.conn ∧ o'.queue.bounds = backlogBounds ∧
      o'.queue.buf = o.queue.buf ++ bytes := by
  obtain ⟨o, ho, hconn, hbounds⟩ := hj.queue
  have hcap : o.queue.bounds.capacityBytes = outboundBacklogKib * 1024 := by
    rw [hbounds]
    rfl
  have hfit := hfits o ho hconn
  have hpush : (o.pushBytes bytes).queue = { o.queue with buf := o.queue.buf ++ bytes } := by
    rw [Outbound.pushBytes_queue, ByteQueue.push_of_fits]
    · rw [hcap]
      decide
    · rw [hcap]
      exact hfit
  refine ⟨o, o.pushBytes bytes, ho, ?_, ?_, ?_, ?_⟩
  · exact hconn ▸ Session.newest_push ho _
  · rw [Outbound.pushBytes_conn, hconn]
  · rw [hpush]
    exact hbounds
  · rw [hpush]

/-! ## One step -/

/-- A chunk that goes into the ring. -/
theorem Inv.write (hI : h.Inv) (hn : h.next call (.write bytes) = some h') : h'.Inv := by
  simp only [next] at hn
  split at hn
  · rename_i hidle
    obtain rfl := Option.some.inj hn
    refine ⟨hI.tracks.write bytes, List.suffix_append _ _, hI.phase.mono rfl ?_ ?_ ?_⟩
    · intro conn holder
      exact ⟨holder.subscriber, fun _ => OutputPc.noConfusion, holder.received⟩
    · intro offset replay hread
      refine ⟨Nat.le_trans hread.le ?_, ?_⟩
      · rw [List.length_append]
        exact Nat.le_add_right _ _
      · rw [List.take_append_of_le_length hread.le]
        exact hread.suffix
    · intro reg waiting _ hj
      refine ⟨hj.queue, hj.subscriber, Nat.le_trans hj.start_le ?_, ?_, hj.order⟩
      · rw [List.length_append]
        exact Nat.le_add_right _ _
      · have hbytes := hj.bytes
        rw [hidle, OutputPc.outstanding, List.append_nil] at hbytes
        rw [List.drop_append_of_le_length hj.start_le, ← hbytes, List.append_assoc]
        rfl
  · cases hn

/-- The pump copies the subscriber. -/
theorem Inv.subscriber {now : Instant} (hI : h.Inv)
    (hn : h.next call (.subscriber now) = some h') : h'.Inv := by
  simp only [next] at hn
  split at hn
  · rename_i bytes hpending
    obtain rfl := Option.some.inj hn
    refine ⟨hI.tracks, List.nil_suffix, hI.phase.mono rfl ?_ ?_ ?_⟩
    · intro conn holder
      refine ⟨holder.subscriber, fun bytes' heq => ?_, holder.received⟩
      exact holder.subscriber (OutputPc.push.inj heq).2
    · exact fun offset replay hread => hread
    · intro reg waiting _ hj
      have hbytes := hj.bytes
      rw [hpending, OutputPc.outstanding] at hbytes
      refine ⟨hj.queue, hj.subscriber, hj.start_le, ?_, hj.order⟩
      show waiting ++ (h.handed ++ if h.session.io.subscriber = some reg.conn then bytes else []) = _
      rw [if_pos hj.subscriber]
      exact hbytes
  · cases hn

/-- The pump pushes a chunk to the connection it copied. -/
theorem Inv.push (hI : h.Inv) (hfits : h.NoOverflow .push) (hseam : h.Seamless .push)
    (hn : h.next call .push = some h') : h'.Inv := by
  simp only [next] at hn
  split at hn
  · rename_i bytes conn hpush
    obtain rfl := Option.some.inj hn
    refine ⟨hI.tracks, List.nil_suffix, hI.phase.mono rfl ?_ ?_ ?_⟩
    · intro c holder
      exact ⟨holder.subscriber, fun _ => OutputPc.noConfusion, holder.received⟩
    · exact fun offset replay hread => hread
    · intro reg waiting hpc hj
      simp only [NoOverflow, hpush] at hfits
      simp only [Seamless, hpush] at hseam
      have hbytes := hj.bytes
      rw [hpush, OutputPc.outstanding] at hbytes
      by_cases hconn : conn = reg.conn
      · rw [if_pos (congrArg some hconn)] at hbytes
        subst hconn
        obtain ⟨o, o', ho, ho', hconn', hbounds, hbuf⟩ :=
          hj.pushBytes (hfits (reg, waiting) hpc)
        have hhanded : Handoff.handed { h with
            session := h.session.onOutbound reg.conn (·.pushBytes bytes), output := .idle } =
            h.handed ++ bytes := by
          rw [handed_eq ho, handed_eq ho', hbuf, List.append_assoc]
        refine ⟨⟨o', ho', hconn', hbounds⟩, hj.subscriber, hj.start_le, ?_, ?_⟩
        · rw [hhanded]
          show waiting ++ (h.handed ++ bytes ++ []) = _
          rw [List.append_nil]
          exact hbytes
        · rw [hhanded]
          rcases hseam (reg, waiting) hpc rfl with hnil | hnil
          · exact .inl hnil
          · rw [hnil, List.append_nil]
            exact hj.order
      · rw [if_neg fun heq => hconn (Option.some.inj heq)] at hbytes
        have hidle : Handoff.Joined { h with output := .idle } reg waiting :=
          ⟨hj.queue, hj.subscriber, hj.start_le, hbytes, hj.order⟩
        exact hidle.frame rfl rfl rfl rfl fun o ho hoc =>
          ⟨o, Session.newest_other ho (fun heq => hconn (heq.symm.trans hoc)) _, rfl, rfl⟩
  · rename_i bytes hpush
    obtain rfl := Option.some.inj hn
    refine ⟨hI.tracks, List.nil_suffix, hI.phase.mono rfl ?_ ?_ ?_⟩
    · intro c holder
      exact ⟨holder.subscriber, fun _ => OutputPc.noConfusion, holder.received⟩
    · exact fun offset replay hread => hread
    · intro reg waiting _ hj
      have hbytes := hj.bytes
      rw [hpush, OutputPc.outstanding, if_neg (Option.some_ne_none _).symm] at hbytes
      exact ⟨hj.queue, hj.subscriber, hj.start_le, hbytes, hj.order⟩
  · cases hn

/-- A control frame or a close code for any connection. -/
theorem Inv.onOutbound (hI : h.Inv) (conn : ConnGeneration) {f : Outbound → Outbound}
    (hf : ∀ o : Outbound, (f o).conn = o.conn ∧ (f o).queue = o.queue) :
    Handoff.Inv { h with session := h.session.onOutbound conn f } := by
  refine ⟨hI.tracks, hI.pending, hI.phase.mono rfl ?_ ?_ ?_⟩
  · exact fun c holder => ⟨holder.subscriber, holder.output, holder.received⟩
  · exact fun offset replay hread => hread
  · exact fun reg waiting _ hj =>
      hj.frame rfl rfl rfl rfl fun o ho _ => Session.newest_keeps (·.queue) h.session conn hf ho

/-- The drain moves bytes from the queue to what was received. -/
theorem Inv.drain (hI : h.Inv) (hn : h.next call .drain = some h') : h'.Inv := by
  simp only [next] at hn
  split at hn
  · rename_i reg item hpc hitem
    obtain rfl := Option.some.inj hn
    have hj : h.Joined reg [] := hI.phase.joined (by rw [hpc]; rfl)
    obtain ⟨o, ho, hconn, hbounds⟩ := hj.queue
    rw [ho, Option.bind_some] at hitem
    have ho' : (h.session.onOutbound reg.conn (·.tryNext.1)).newest = some o.tryNext.1 :=
      hconn ▸ Session.newest_push ho (·.tryNext.1)
    have hyields : o.Yields o.tryNext.1 item := Outbound.yields_of_tryNext (by rw [← hitem])
    have hsame : o.tryNext.1.conn = reg.conn ∧ o.tryNext.1.queue.bounds = backlogBounds ∧
        payload [item] ++ o.tryNext.1.queue.buf = o.queue.buf := by
      rw [← hconn, ← hbounds]
      generalize o.tryNext.1 = o' at hyields
      cases hyields with
      | gap | control | close => exact ⟨rfl, rfl, rfl⟩
      | bytes =>
        refine ⟨rfl, rfl, ?_⟩
        simp only [payload, List.flatMap_cons, List.flatMap_nil, List.append_nil]
        exact List.take_append_drop _ _
    obtain ⟨hconn', hbounds', hbuf⟩ := hsame
    have hhanded : Handoff.handed { h with
        session := h.session.onOutbound reg.conn (·.tryNext.1)
        received := h.received ++ [item] } = h.handed := by
      rw [handed_eq ho, handed_eq ho', ← hbuf]
      simp only [payload, List.flatMap_append, List.append_assoc]
    refine ⟨hI.tracks, hI.pending, ?_⟩
    show Handoff.Phase _ h.attach
    rw [hpc]
    refine ⟨⟨_, ho', hconn', hbounds'⟩, hj.subscriber, hj.start_le, ?_, .inl rfl⟩
    have hbytes := hj.bytes
    rw [← hhanded] at hbytes
    exact hbytes
  · cases hn

/-- What is left of a list after its first `n` elements, before them the last of these. -/
theorem append_drop_of_suffix {α : Type} {l m : List α} {n : Nat} (hn : n ≤ l.length)
    (hm : m <:+ l.take n) : m ++ l.drop n = l.drop (n - m.length) := by
  obtain ⟨before, hbefore⟩ := hm
  have hlen := congrArg List.length hbefore
  rw [List.length_append, List.length_take, Nat.min_eq_left hn] at hlen
  have hstart : n - m.length = before.length := by omega
  have hl : l = before ++ (m ++ l.drop n) := by
    rw [← List.append_assoc, hbefore, List.take_append_drop]
  calc m ++ l.drop n = (before ++ (m ++ l.drop n)).drop before.length := by
        rw [List.drop_left]
    _ = l.drop (n - m.length) := by rw [← hl, hstart]

/-- The replacement of the subscriber, with nothing in the ring but what was read of it and the
chunk that waits. -/
theorem Inv.replace (hI : h.Inv) {conn : ConnGeneration} {offset : Nat} {replay : Option Replay}
    (holder : h.Older conn) (hread : ReadAt h.stream offset replay)
    (hexact : h.stream.length = offset + h.output.pending.length) (reg : Registration)
    (hreg : reg.conn = conn ∧ reg.streamOffset = offset ∧ reg.replay = replay) (pc : AttachPc) :
    Handoff.Joined { h with session := (h.session.replaceSubscriber conn).1, attach := pc } reg
      reg.replayed := by
  obtain ⟨rfl, rfl, rfl⟩ := hreg
  have hnewest := h.session.newest_replaceSubscriber reg.conn
  have hhanded : Handoff.handed { h with session := (h.session.replaceSubscriber reg.conn).1
                                         attach := pc } = [] := by
    rw [handed_eq hnewest, holder.received]
    rfl
  -- Nothing but the chunk that waits comes after the offset.
  have hrest : h.stream.drop reg.streamOffset = h.output.outstanding reg.conn := by
    cases hout : h.output with
    | subscriber bytes =>
      have hsuffix := hI.pending
      rw [hout] at hsuffix hexact
      obtain ⟨before, hbefore⟩ := hsuffix
      have hlen := congrArg List.length hbefore
      rw [List.length_append, hexact] at hlen
      rw [← Nat.add_right_cancel hlen, ← hbefore, List.drop_left]
      rfl
    | idle =>
      rw [hout] at hexact
      exact List.drop_eq_nil_of_le (Nat.le_of_eq hexact)
    | push bytes current =>
      rw [hout] at hexact
      have hle : h.stream.length ≤ reg.streamOffset := Nat.le_of_eq hexact
      rw [List.drop_eq_nil_of_le hle, OutputPc.outstanding, if_neg]
      rintro rfl
      exact holder.output bytes hout
  refine ⟨⟨_, hnewest, rfl, rfl⟩, rfl, ?_, ?_, .inr hhanded⟩
  · exact Nat.le_trans (Nat.sub_le _ _) hread.le
  · rw [hhanded, List.nil_append]
    show reg.replayed ++ h.output.outstanding reg.conn = h.stream.drop reg.start
    rw [← hrest]
    exact append_drop_of_suffix hread.le hread.suffix

/-- The attach goes on after its notice with the whole replay. -/
theorem Joined.afterNotice (hj : h.Joined reg reg.replayed) :
    h.Phase (AttachPc.afterNotice reg) := by
  unfold AttachPc.afterNotice
  unfold Registration.replayed at hj
  split
  · rename_i hr
    rw [hr] at hj
    exact hj
  · rename_i hr
    rw [hr] at hj
    exact hj
  · rename_i hr
    rw [hr] at hj
    exact hj

/-- The replay is handed out. -/
theorem Joined.replayBytes (hj : h.Joined reg bytes) (hfits : h.Fits reg.conn bytes) :
    Handoff.Joined { h with session := h.session.onOutbound reg.conn (·.pushBytes bytes)
                            attach := .resize reg } reg [] := by
  obtain ⟨o, o', ho, ho', hconn', hbounds, hbuf⟩ := hj.pushBytes hfits
  have hhanded : Handoff.handed { h with
      session := h.session.onOutbound reg.conn (·.pushBytes bytes)
      attach := .resize reg } = h.handed ++ bytes := by
    rw [handed_eq ho, handed_eq ho', hbuf, List.append_assoc]
  refine ⟨⟨o', ho', hconn', hbounds⟩, hj.subscriber, hj.start_le, ?_, .inl rfl⟩
  have hbytes := hj.bytes
  rw [hhanded, List.nil_append]
  -- Nothing was handed out before the replay, or there is no replay.
  rcases hj.order with hnil | hnil
  · rw [hnil, List.append_nil]
    rw [hnil, List.nil_append] at hbytes
    exact hbytes
  · rw [hnil, List.nil_append] at hbytes ⊢
    exact hbytes

/-- The CAS keeps the scrollback and the slot, whether it is won or not. -/
theorem Inv.cas (hI : h.Inv) (hpc : h.attach = .cas) {s' : Session} {pc' : AttachPc}
    (hstep : AttachPc.step call h.session .cas = some (s', pc')) :
    Handoff.Inv { h with session := s', attach := pc' } := by
  have holder : h.Older ⟨h.session.fence.nextConn⟩ := by
    have hphase := hI.phase
    rw [hpc] at hphase
    exact hphase
  simp only [AttachPc.step] at hstep
  have hbuffer := h.session.buffer_attachCas call.now call.policy call.size call.generation
  rcases h.session.attachCas_cases call.now call.policy call.size call.generation with
    ⟨s₁, error, heq, -⟩ | ⟨s₁, heq, -, -, hfence⟩
  · rw [heq] at hstep hbuffer
    cases hstep
    refine ⟨?_, hI.pending, trivial⟩
    rw [show s'.io.buffer = h.session.io.buffer from hbuffer]
    exact hI.tracks
  · rw [heq] at hstep hbuffer
    cases hstep
    refine ⟨?_, hI.pending, ?_, holder.output, holder.received⟩
    · rw [show s'.io.buffer = h.session.io.buffer from hbuffer]
      exact hI.tracks
    · have hsub : s'.io.subscriber = h.session.io.subscriber :=
        congrArg Session.Fence.subscriber hfence
      rw [hsub]
      exact holder.subscriber

/-- A step of the attach. -/
theorem Inv.attach (hI : h.Inv) (hfits : h.NoOverflow .attach) (hseam : h.Seamless .attach)
    (hn : h.next call .attach = some h') : h'.Inv := by
  obtain ⟨⟨s', pc'⟩, hstep, rfl⟩ := Option.map_eq_some_iff.mp hn
  have hphase := hI.phase
  simp only [NoOverflow] at hfits
  simp only [Seamless] at hseam
  -- The queues change and nothing else.
  have hqueues : ∀ (conn : ConnGeneration) (f : Outbound → Outbound) (pc : AttachPc),
      Handoff.Phase { h with session := h.session.onOutbound conn f, attach := pc } pc →
      Handoff.Inv { h with session := h.session.onOutbound conn f, attach := pc } :=
    fun conn f pc hp => ⟨hI.tracks, hI.pending, hp⟩
  cases hpc : h.attach with
  | cas =>
    rw [hpc] at hstep
    exact hI.cas hpc hstep
  | register conn =>
    rw [hpc] at hstep hphase hseam
    cases hstep
    have hoffset := hI.tracks.written_eq hseam
    refine ⟨hI.tracks, hI.pending, ⟨hphase.subscriber, hphase.output, hphase.received⟩, ?_, ?_⟩
    · exact Nat.le_of_eq hoffset
    · show _ <:+ h.stream.take h.session.io.buffer.totalWritten
      rw [hoffset, List.take_length]
      exact Session.registerReplay_suffix hI.tracks _ _
  | replace conn offset replay =>
    rw [hpc] at hstep hphase hseam
    cases hstep
    have hj := fun reg hreg pc =>
      hI.replace hphase.1 hphase.2 hseam reg hreg pc
    refine ⟨hI.tracks, hI.pending, ?_⟩
    dsimp only [Session.replaceSubscriber]
    split
    · rename_i previous hprevious
      refine ⟨fun heq => ?_, hj _ ⟨rfl, rfl, rfl⟩ _⟩
      exact hphase.1.subscriber (hprevious.trans (congrArg some heq))
    · exact hj _ ⟨rfl, rfl, rfl⟩ _
  | closePrevious reg previous =>
    rw [hpc] at hstep hphase
    cases hstep
    exact hqueues _ _ _ (hphase.2.frame rfl rfl rfl rfl fun o ho hoc =>
      ⟨o, Session.newest_other ho (fun heq => hphase.1 (heq.symm.trans hoc)) _, rfl, rfl⟩)
  | subscriberFor reg =>
    rw [hpc] at hstep hphase
    have hfor : h.session.subscriberFor reg.conn = some reg.conn := by
      rw [Session.subscriberFor, hphase.subscriber]
      simp
    simp only [AttachPc.step, hfor] at hstep
    cases hstep
    exact ⟨hI.tracks, hI.pending, hphase.frame rfl rfl rfl rfl fun o ho _ => ⟨o, ho, rfl, rfl⟩⟩
  | notice reg =>
    rw [hpc] at hstep hphase
    cases hstep
    refine hqueues _ _ _ (Joined.afterNotice ?_)
    exact hphase.frame rfl rfl rfl rfl fun o ho _ =>
      Session.newest_keeps (·.queue) h.session reg.conn (pushControl_keeps _) ho
  | replayGap reg dropped bytes =>
    rw [hpc] at hstep hphase
    cases hstep
    exact hqueues _ _ _ (hphase.frame rfl rfl rfl rfl fun o ho _ =>
      Session.newest_keeps (·.queue) h.session reg.conn (pushControl_keeps _) ho)
  | replayBytes reg bytes =>
    rw [hpc] at hstep hphase hfits
    cases hstep
    exact hqueues _ _ _ (Joined.replayBytes hphase hfits)
  | resize reg =>
    rw [hpc] at hstep hphase
    cases hstep
    exact ⟨hI.tracks, hI.pending, hphase.frame rfl rfl rfl rfl fun o ho _ => ⟨o, ho, rfl, rfl⟩⟩
  | returned reg =>
    rw [hpc] at hstep
    cases hstep
  | refused error =>
    rw [hpc] at hstep
    cases hstep

theorem Inv.next {l : Label} (hI : h.Inv) (hfits : h.NoOverflow l) (hseam : h.Seamless l)
    (hn : h.next call l = some h') : h'.Inv := by
  cases l with
  | write bytes => exact hI.write hn
  | subscriber now => exact hI.subscriber hn
  | push => exact hI.push hfits hseam hn
  | attach => exact hI.attach hfits hseam hn
  | control conn event =>
    simp only [Handoff.next] at hn
    split at hn
    · obtain rfl := Option.some.inj hn
      exact hI.onOutbound conn (pushControl_keeps _)
    · obtain rfl := Option.some.inj hn
      exact hI.onOutbound conn (pushControl_keeps _)
    · cases hn
  | close conn code =>
    obtain rfl := Option.some.inj hn
    exact hI.onOutbound conn (close_keeps code)
  | drain => exact hI.drain hn

/-! ## From the cursor on -/

/-- `P` holds of the offset and the replay that were registered. -/
def Registers (P : Nat → Option Replay → Prop) : AttachPc → Prop
  | .cas | .register _ | .refused _ => True
  | .replace _ offset replay => P offset replay
  | .closePrevious reg _ | .subscriberFor reg | .notice reg | .replayGap reg _ _
  | .replayBytes reg _ | .resize reg | .returned reg => P reg.streamOffset reg.replay

variable {P : Nat → Option Replay → Prop}

theorem Registers.joined {pc : AttachPc} (hp : Registers P pc)
    (hpc : pc.joined = some (reg, waiting)) : P reg.streamOffset reg.replay := by
  cases pc <;> cases hpc <;> exact hp

theorem registers_step {s' : Session} {pc' : AttachPc}
    (hstep : h.attach.step call h.session = some (s', pc')) (hp : Registers P h.attach)
    (hregister : ∀ conn, h.attach = .register conn →
      P (h.session.registerReplay call.scrollbackReplay call.since).1
        (h.session.registerReplay call.scrollbackReplay call.since).2) : Registers P pc' := by
  cases hpc : h.attach <;> rw [hpc] at hstep hp <;> simp only [AttachPc.step] at hstep
  case cas =>
    split at hstep <;> cases hstep <;> trivial
  case register conn =>
    cases hstep
    exact hregister conn hpc
  case replace conn offset replay =>
    cases hstep
    dsimp only [Session.replaceSubscriber]
    split <;> exact hp
  case subscriberFor reg =>
    cases hstep
    split
    · exact hp
    · trivial
  case notice reg =>
    cases hstep
    unfold AttachPc.afterNotice
    split <;> exact hp
  case closePrevious | replayGap | replayBytes | resize =>
    cases hstep
    exact hp
  case returned | refused => cases hstep

/-- Only the attach moves its own program counter. -/
theorem attach_eq {l : Label} (hn : h.next call l = some h') (hl : l ≠ .attach) :
    h'.attach = h.attach := by
  cases l <;> simp only [Handoff.next] at hn
  case attach => exact absurd rfl hl
  case close => cases hn; rfl
  all_goals
    split at hn <;> cases hn <;> rfl

theorem registers_next {l : Label} (hp : Registers P h.attach)
    (hregister : l = .attach → ∀ conn, h.attach = .register conn →
      P (h.session.registerReplay call.scrollbackReplay call.since).1
        (h.session.registerReplay call.scrollbackReplay call.since).2)
    (hn : h.next call l = some h') : Registers P h'.attach := by
  by_cases hl : l = .attach
  · subst hl
    obtain ⟨⟨s', pc'⟩, hstep, rfl⟩ := Option.map_eq_some_iff.mp hn
    exact registers_step hstep hp (hregister rfl)
  · rw [attach_eq hn hl]
    exact hp

/-- The replay starts at `since`. -/
def StartsAt (since offset : Nat) (replay : Option Replay) : Prop :=
  offset - (replay.elim [] Replay.bytes).length = since

/-- A replay from a cursor within retention starts at the cursor. -/
theorem startsAt_register {since : Nat} (hsince : call.since = some since) (hI : h.Inv)
    {conn : ConnGeneration} (hpc : h.attach = .register conn)
    (hret : h.Retained since .attach) (hseam : h.Seamless .attach) :
    StartsAt since (h.session.registerReplay call.scrollbackReplay call.since).1
      (h.session.registerReplay call.scrollbackReplay call.since).2 := by
  simp only [Retained, hpc] at hret
  simp only [Seamless, hpc] at hseam
  obtain ⟨hcap, hearliest, hle⟩ := hret
  have hbytes := hI.tracks.readSince_bytes hseam hcap hle hearliest
  have hoffset : h.session.io.buffer.totalWritten = h.stream.length :=
    hI.tracks.written.trans (Nat.min_eq_left hseam)
  rw [hsince]
  show h.session.io.buffer.totalWritten - (h.session.io.buffer.readSince since).bytes.length = since
  rw [hbytes, List.length_drop, hoffset]
  rw [hoffset] at hle
  omega

/-- The invariant gives what the connection is handed. -/
theorem Inv.exact {since : Nat} (hI : h.Inv) (hp : Registers (StartsAt since) h.attach) :
    h.Exact since := by
  have hstart : ∀ reg waiting, h.attach.joined = some (reg, waiting) → reg.start = since :=
    fun reg waiting hpc => hp.joined hpc
  refine ⟨fun p hpc => ?_, fun hreturned hidle => ?_⟩
  · obtain ⟨reg, waiting⟩ := p
    have hj := hI.phase.joined hpc
    rw [← hstart reg waiting hpc, ← hj.bytes]
    rcases hj.order with hnil | hnil
    · rw [hnil, List.nil_append]
      exact List.prefix_append _ _
    · rw [hnil]
      exact List.nil_prefix
  · cases hpc : h.attach with
    | returned reg =>
      have hjoined : h.attach.joined = some (reg, []) := by rw [hpc]; rfl
      have hj := hI.phase.joined hjoined
      have hbytes := hj.bytes
      rw [hidle, OutputPc.outstanding, List.append_nil, List.nil_append] at hbytes
      rw [← hstart reg [] hjoined]
      exact hbytes
    | _ =>
      rw [hpc] at hreturned
      cases hreturned

end Handoff

open Handoff

/-- Whatever `on_output` does meanwhile, an attach with a cursor within retention hands the new
connection exactly the stream from the cursor on, if nothing overflows and the seam between replay
and live output is kept. -/
theorem Handoff.exact_of_seamless (call : AttachCall) (since : Nat) (hsince : call.since = some since)
    {s : Session} {stream : List UInt8} (hs : s.Ready stream) (run : List Label)
    (hret : Trace.AllSteps (next call) (Retained since) (start s stream) run)
    (hfits : Trace.AllSteps (next call) NoOverflow (start s stream) run)
    (hseam : Trace.AllSteps (next call) Seamless (start s stream) run) :
    Trace.AllStates (next call) (Exact since) (start s stream) run := by
  have hinv : Trace.AllStates (next call) (fun h => h.Inv ∧ Registers (StartsAt since) h.attach)
      (start s stream) run := by
    refine Trace.AllStates.of_invariant ?_ ⟨inv_start hs, trivial⟩ (hret.and (hfits.and hseam))
    intro h l h' hI hc hn
    refine ⟨hI.1.next hc.2.1 hc.2.2 hn, registers_next hI.2 ?_ hn⟩
    rintro rfl conn hpc
    exact startsAt_register hsince hI.1 hpc hc.1 hc.2.2
  exact hinv.imp fun h hI => hI.1.exact hI.2

/-! ## The three windows -/

/-- A session that has printed nothing yet. -/
def freshSession : Session := .new .sh ⟨1⟩ .default 0 1024 true .default

theorem ready_fresh : freshSession.Ready [] :=
  ⟨Session.Fence.valid_fresh, RingBuffer.tracks_new _⟩

/-- An attach to it, from the start of the stream. -/
def freshCall : AttachCall where
  policy := .default
  scrollbackReplay := true
  generation := ⟨1⟩
  size := .default
  since := some 0
  now := 0

/-- A chunk that is handed on without an attach in between. -/
def wholeChunk (bytes : List UInt8) : List Handoff.Label := [.write bytes, .subscriber 0, .push]

def attachSteps (n : Nat) : List Handoff.Label := List.replicate n .attach

theorem handoff_seamless : Trace.AllStates (next freshCall) (Exact 0) (start freshSession [])
    (wholeChunk [1] ++ attachSteps 3 ++ [.write [2]] ++ attachSteps 4 ++ [.subscriber 0, .push, .drain]) :=
  Handoff.exact_of_seamless freshCall 0 rfl ready_fresh _ (by decide) (by decide) (by decide)

theorem Handoff.not_exact {call : AttachCall} {since : Nat} {h : Handoff} {run : List Label}
    (hrun : (Trace.run (next call) h run).map (fun h => decide (h.Exact since)) = some false) :
    ¬ Trace.AllStates (next call) (Exact since) h run := by
  intro hall
  obtain ⟨t, ht, hf⟩ := hall.observe hrun
  exact of_decide_eq_false hf ht

/-- A chunk that is written and handed on between the read of the ring and the replacement of
the subscriber is in neither. -/
def lostChunk : List Handoff.Label := attachSteps 2 ++ wholeChunk [1] ++ attachSteps 5

/-- A chunk that is in the ring when it is read, and handed on after the replacement, comes
twice. -/
def doubledChunk : List Handoff.Label :=
  [.write [1]] ++ attachSteps 3 ++ [.subscriber 0] ++ attachSteps 4 ++ [.push]

/-- A chunk that is written after the replacement may overtake the replay. -/
def overtakingChunk : List Handoff.Label :=
  wholeChunk [1] ++ attachSteps 3 ++ wholeChunk [2] ++ attachSteps 4

/-- Within retention and without overflow, the connection is not handed the stream. -/
def Mishands (run : List Handoff.Label) : Prop :=
  Trace.AllSteps (next freshCall) (Retained 0) (start freshSession []) run ∧
  Trace.AllSteps (next freshCall) NoOverflow (start freshSession []) run ∧
  ¬ Trace.AllStates (next freshCall) (Exact 0) (start freshSession []) run

/-- A byte is lost, comes twice, or comes too early. -/
theorem handoff_inexact :
    Mishands lostChunk ∧ Mishands doubledChunk ∧ Mishands overtakingChunk := by
  refine ⟨?_, ?_, ?_⟩
  · exact ⟨by decide, by decide, Handoff.not_exact (by decide)⟩
  · exact ⟨by decide, by decide, Handoff.not_exact (by decide)⟩
  · exact ⟨by decide, by decide, Handoff.not_exact (by decide)⟩

end OpenabPty
