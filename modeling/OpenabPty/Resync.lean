import OpenabPty.Seam
import OpenabPty.Untorn

/-!
# The kitty mirror across an attach (`capproxy.rs`, `session.rs`)

`on_output` puts a chunk through the proxy before it writes what is kept of it to the ring. An
attach that starts a fresh emulator resets the mirror and lets it observe the replay, after it
has read the ring and replaced the subscriber. Each of the two takes the proxy's lock for this,
and for nothing else.
-/

namespace OpenabPty

namespace CapabilityProxy

/-- The proxy after the kitty sequences of `bytes`, its queries skipped. -/
def follow (p : CapabilityProxy) (bytes : List UInt8) : CapabilityProxy :=
  p.observe ((survivors 0 bytes).map Prod.fst)

/-- Taking the queries out of a chunk changes nothing about the kitty sequences it has. -/
def Strips (p : CapabilityProxy) (chunk : List UInt8) : Prop :=
  Agrees (p.follow (left 0 chunk)) (p.follow chunk)

/-- A fresh proxy that has observed the replay and then each of the chunks. -/
def observing (replay : List UInt8) (chunks : List (List UInt8)) : CapabilityProxy :=
  chunks.foldl (fun p chunk => (p.process chunk).1) (new.process replay).1

instance (p : CapabilityProxy) (chunk : List UInt8) : Decidable (p.Strips chunk) :=
  inferInstanceAs (Decidable (Agrees _ _))

end CapabilityProxy

/-- `client_starts_fresh`. -/
def AttachCall.startsFresh (call : AttachCall) (replay : Option Replay) : Bool :=
  call.since.isNone ||
    match replay with
    | some (.gap ..) => true
    | _ => false

/-- How far an attach has come: it will be `conn`, it has the subscriber slot, it has sent its
notice, it has returned. -/
inductive Stage where
  | coming (conn : ConnGeneration)
  | seated (reg : Registration)
  | greeted (reg : Registration)
  | returned (reg : Registration)
  | refused
  deriving DecidableEq

/-- The registration of an attach that has the subscriber slot. -/
def Stage.seat : Stage → Option Registration
  | .seated reg | .greeted reg | .returned reg => some reg
  | _ => none

def Handoff.stage (h : Handoff) : Stage :=
  match h.attach with
  | .cas => .coming ⟨h.session.fence.nextConn⟩
  | .register conn | .replace conn _ _ => .coming conn
  | .closePrevious reg _ | .subscriberFor reg | .notice reg => .seated reg
  | .replayGap reg _ _ | .replayBytes reg _ | .resize reg => .greeted reg
  | .returned reg => .returned reg
  | .refused _ => .refused

/-- The handoff with the capability proxy in front of the ring. `forwarded` is what is kept of a
chunk that the ring does not have yet, `resynced` says that the attach is past its resync, and
`pushed` is what `on_output` has pushed to which connection. -/
structure Proxied where
  handoff : Handoff
  proxy : CapabilityProxy
  forwarded : Option (List UInt8)
  resynced : Bool
  pushed : List (ConnGeneration × List UInt8)
  deriving DecidableEq

/-- The chunk that the pump holds for the connection `conn`. -/
def OutputPc.chunk (conn : ConnGeneration) : OutputPc → List (List UInt8)
  | .idle => []
  | .subscriber bytes => [bytes]
  | .push bytes current => if current = some conn then [bytes] else []

namespace Proxied

/-- A chunk goes through the proxy, or into the ring; the attach resyncs the proxy; or
something happens behind the ring. -/
inductive Label where
  | process (chunk : List UInt8)
  | write
  | resync
  | other (l : Handoff.Label)
  deriving DecidableEq

/-- Before the attach, between two chunks. -/
def start (s : Session) (stream : List UInt8) (proxy : CapabilityProxy) : Proxied :=
  { handoff := .start s stream, proxy := proxy, forwarded := none, resynced := false, pushed := [] }

/-- Only the pump writes to the ring, and an attach that has sent its notice resyncs before it
goes on. -/
def permits (m : Proxied) : Handoff.Label → Bool
  | .write _ => false
  | .attach =>
    match m.handoff.stage with
    | .greeted _ => m.resynced
    | _ => true
  | _ => true

/-- What a step pushes on behalf of `on_output`. -/
def pushes (m : Proxied) : Handoff.Label → List (ConnGeneration × List UInt8)
  | .push =>
    match m.handoff.output with
    | .push bytes (some conn) => [(conn, bytes)]
    | _ => []
  | _ => []

def next (call : AttachCall) (m : Proxied) : Label → Option Proxied
  | .process chunk =>
    match m.handoff.output, m.forwarded with
    | .idle, none =>
      let processed := m.proxy.process chunk
      some { m with proxy := processed.1, forwarded := some processed.2.1 }
    | _, _ => none
  | .write =>
    m.forwarded.bind fun kept =>
      (m.handoff.next call (.write kept)).map fun h => { m with handoff := h, forwarded := none }
  | .resync =>
    match m.handoff.stage, m.resynced with
    | .greeted reg, false =>
      some { m with
        proxy := if call.startsFresh reg.replay then m.proxy.resync reg.replayed else m.proxy
        resynced := true }
    | _, _ => none
  | .other l =>
    if m.permits l then
      (m.handoff.next call l).map fun h => { m with handoff := h, pushed := m.pushed ++ m.pushes l }
    else none

/-- The live chunks that `conn` was handed, in order. -/
def deliveredTo (m : Proxied) (conn : ConnGeneration) : List (List UInt8) :=
  (m.pushed.filter (·.1 = conn)).map Prod.snd

/-- These, and the chunk that the pump holds for it. -/
def live (m : Proxied) (conn : ConnGeneration) : List (List UInt8) :=
  m.deliveredTo conn ++ (m.forwarded.toList ++ m.handoff.output.chunk conn)

/-- When the attach has returned and the pump is between two chunks, the mirror of a client that
started fresh is that of a fresh proxy that has observed what the client was fed. -/
def Mirrored (call : AttachCall) (m : Proxied) : Prop :=
  match m.handoff.stage with
  | .returned reg =>
    call.startsFresh reg.replay = true → m.forwarded = none → m.handoff.output = .idle →
      m.proxy.Agrees (.observing reg.replayed (m.deliveredTo reg.conn))
  | _ => True

/-- No chunk is between the proxy and the ring when the ring is read. -/
def Stored (m : Proxied) : Label → Prop
  | .other .attach =>
    match m.handoff.attach with
    | .register _ => m.forwarded = none
    | _ => True
  | _ => True

/-- The registration of the client whose emulator the proxy mirrors. -/
def following (call : AttachCall) (m : Proxied) : Option Registration :=
  if m.resynced then m.handoff.stage.seat.filter fun reg => call.startsFresh reg.replay else none

/-- The live chunks that the new connection has or will have from the pump when the proxy is
resynced leave an emulator alone that was fed the replay, and a chunk that goes through the proxy
later has the same kitty sequences before and after its queries are taken out. -/
def Synced (call : AttachCall) (m : Proxied) : Label → Prop
  | .process chunk => (m.following call).isSome = true → m.proxy.Strips chunk
  | .resync =>
    ∀ reg ∈ m.handoff.stage.seat, call.startsFresh reg.replay = true →
      CapabilityProxy.Agrees
        ((m.live reg.conn).foldl CapabilityProxy.follow (CapabilityProxy.new.follow reg.replayed))
        (CapabilityProxy.new.follow reg.replayed)
  | _ => True

/-- `m'` comes after `m`, and no chunk has gone through the proxy in between. -/
def Quietly (call : AttachCall) : Proxied → Proxied → Prop :=
  Relation.ReflTransGen fun m m' =>
    ∃ l, (∀ chunk, l ≠ .process chunk) ∧ m.next call l = some m'

/-- The mirror matches, and once the proxy is resynced it will match however the attach and the
chunk under way come to their end. -/
def Settles (call : AttachCall) (m : Proxied) : Prop :=
  m.Mirrored call ∧ (m.resynced = true → ∀ m', m.Quietly call m' → m'.Mirrored call)

instance (call : AttachCall) (m : Proxied) : Decidable (m.Mirrored call) := by
  unfold Mirrored
  split <;> infer_instance

instance (m : Proxied) (l : Label) : Decidable (m.Stored l) := by
  unfold Stored
  split
  · split <;> infer_instance
  · infer_instance

instance (call : AttachCall) (m : Proxied) (l : Label) : Decidable (m.Synced call l) := by
  unfold Synced
  split <;> infer_instance

end Proxied

/-! ## What the proxy follows -/

namespace CapabilityProxy

variable {p q : CapabilityProxy}

theorem Agrees.symm (h : Agrees p q) : Agrees q p := ⟨h.1.symm, h.2.symm⟩

/-- `process` moves the model as the sequences of its input do. -/
theorem follow_agrees (p : CapabilityProxy) (bytes : List UInt8) :
    Agrees (p.follow bytes) (p.process bytes).1 := by
  have hmodel := (p.scan_chunk 0 bytes).2
  rw [List.drop_zero] at hmodel
  rw [process_eq_scan]
  exact hmodel

theorem Agrees.follow (h : Agrees p q) (bytes : List UInt8) :
    Agrees (p.follow bytes) (q.follow bytes) := h.observe _

theorem Agrees.process (h : Agrees p q) (bytes : List UInt8) :
    Agrees (p.process bytes).1 (q.process bytes).1 :=
  (p.follow_agrees bytes).symm.trans ((h.follow bytes).trans (q.follow_agrees bytes))

/-- Chunk by chunk, following is observing. -/
theorem Agrees.foldl (h : Agrees p q) (chunks : List (List UInt8)) :
    Agrees (chunks.foldl CapabilityProxy.follow p)
      (chunks.foldl (fun p chunk => (p.process chunk).1) q) := by
  induction chunks generalizing p q with
  | nil => exact h
  | cons chunk chunks ih =>
    apply ih
    exact (h.follow chunk).trans (q.follow_agrees chunk)

theorem observing_concat (replay : List UInt8) (chunks : List (List UInt8)) (chunk : List UInt8) :
    observing replay (chunks ++ [chunk]) = ((observing replay chunks).process chunk).1 := by
  simp only [observing, List.foldl_append, List.foldl_cons, List.foldl_nil]

/-- What a resync leaves is a fresh proxy that has observed the replay. -/
theorem resync_agrees (p : CapabilityProxy) (replay : List UInt8) :
    Agrees (p.resync replay) (new.process replay).1 := by
  have hreset : Agrees p.resetEmulatorModel new := ⟨rfl, rfl⟩
  exact (agrees_answered _ p.answered).symm.trans (hreset.process replay)

/-- A chunk keeps the mirror in line with a client that is fed what is kept of it exactly when
stripping changes nothing that matters. -/
theorem process_agrees_iff (h : Agrees p q) (chunk : List UInt8) :
    Agrees (p.process chunk).1 (q.process (p.process chunk).2.1).1 ↔ p.Strips chunk := by
  rw [process_kept]
  have hchunk := p.follow_agrees chunk
  have hkept := (p.follow_agrees (left 0 chunk)).trans (h.process (left 0 chunk))
  constructor
  · intro hsame
    exact hkept.trans (hsame.symm.trans hchunk.symm)
  · intro hstrips
    exact hchunk.symm.trans (hstrips.symm.trans hkept)

/-- A chunk in which neither a query nor a kitty sequence is torn has the same kitty sequences
without its queries. -/
theorem strips_of_untorn {chunk : List UInt8} (hquery : ¬ Splice.Torn query? chunk)
    (hkitty : ¬ Splice.TornAround query? kitty? chunk) (p : CapabilityProxy) : p.Strips chunk := by
  obtain ⟨-, -, -, hagrees⟩ := (p.settles_iff_seamless chunk).mpr (p.seamless_of_untorn hquery hkitty)
  exact (process_agrees_iff (.refl p) chunk).mp hagrees.symm

/-- A resync is in line with a client that was fed the replay and then `chunks` exactly when
these leave it alone. -/
theorem resync_agrees_iff (p : CapabilityProxy) (replay : List UInt8)
    (chunks : List (List UInt8)) :
    Agrees (p.resync replay) (observing replay chunks) ↔
      Agrees (chunks.foldl CapabilityProxy.follow (new.follow replay)) (new.follow replay) := by
  have hreplay := new.follow_agrees replay
  have hresync := (p.resync_agrees replay).trans hreplay.symm
  have hchunks := hreplay.foldl chunks
  constructor
  · intro hsame
    exact hchunks.trans (hsame.symm.trans hresync)
  · intro halone
    exact hresync.trans (halone.symm.trans hchunks)

end CapabilityProxy

/-! ## What happens behind the ring -/

namespace Handoff

variable {call : AttachCall} {h h' : Handoff}

/-- Everybody but the attach leaves it and the subscriber slot alone. -/
theorem stage_eq {l : Label} (hn : h.next call l = some h') (hl : l ≠ .attach) :
    h'.stage = h.stage ∧ h'.session.io.subscriber = h.session.io.subscriber := by
  have hattach := attach_eq hn hl
  have hsame : h'.session.fence.nextConn = h.session.fence.nextConn ∧
      h'.session.io.subscriber = h.session.io.subscriber := by
    cases l <;> simp only [Handoff.next] at hn
    case attach => exact absurd rfl hl
    case close =>
      cases hn
      exact ⟨rfl, rfl⟩
    all_goals
      split at hn <;> cases hn <;> exact ⟨rfl, rfl⟩
  refine ⟨?_, hsame.2⟩
  simp only [stage, hattach, hsame.1]

/-- What the attach does: it goes on, or takes the slot. -/
theorem stage_attach (hn : h.next call .attach = some h') :
    h'.output = h.output ∧
    ((h'.session.io.subscriber = h.session.io.subscriber ∧
        (h'.stage = h.stage ∨ h'.stage = .refused ∨
          ∃ reg, (h.stage = .seated reg ∧ h'.stage = .greeted reg) ∨
            (h.stage = .greeted reg ∧ h'.stage = .returned reg))) ∨
      ∃ reg, h.stage = .coming reg.conn ∧ h'.stage = .seated reg ∧
        h'.session.io.subscriber = some reg.conn) := by
  obtain ⟨⟨s', pc'⟩, hstep, rfl⟩ := Option.map_eq_some_iff.mp hn
  refine ⟨rfl, ?_⟩
  cases hpc : h.attach <;> rw [hpc] at hstep <;> simp only [AttachPc.step] at hstep
  case cas =>
    left
    rcases h.session.attachCas_cases call.now call.policy call.size call.generation with
      ⟨s₁, error, heq, -, hfence⟩ | ⟨s₁, heq, -, -, hfence⟩
    · rw [heq] at hstep
      cases hstep
      exact ⟨congrArg Session.Fence.subscriber hfence, .inr (.inl rfl)⟩
    · rw [heq] at hstep
      cases hstep
      refine ⟨congrArg Session.Fence.subscriber hfence, .inl ?_⟩
      simp only [stage, hpc]
  case replace conn offset replay =>
    cases hstep
    right
    refine ⟨⟨conn, (h.session.replaceSubscriber conn).2, replay, offset⟩, ?_, ?_, rfl⟩
    · simp only [stage, hpc]
    · simp only [stage]
      cases (h.session.replaceSubscriber conn).2 <;> rfl
  case subscriberFor reg =>
    cases hstep
    left
    refine ⟨rfl, ?_⟩
    cases h.session.subscriberFor reg.conn with
    | none => exact .inr (.inl rfl)
    | some conn =>
      left
      simp only [stage, hpc]
  case notice reg =>
    cases hstep
    left
    refine ⟨rfl, .inr (.inr ⟨reg, .inl ?_⟩)⟩
    simp only [stage, hpc, AttachPc.afterNotice, true_and]
    cases reg.replay with
    | none => rfl
    | some replay => cases replay <;> rfl
  case resize reg =>
    cases hstep
    left
    refine ⟨rfl, .inr (.inr ⟨reg, .inr ?_⟩)⟩
    simp only [stage, hpc, and_self]
  case register | closePrevious | replayGap | replayBytes =>
    cases hstep
    left
    refine ⟨rfl, .inl ?_⟩
    simp only [stage, hpc]
  case returned | refused => cases hstep

/-- What the pump does: it goes on with its chunk, or waits. -/
theorem output_cases {l : Label} (hn : h.next call l = some h') :
    (∃ bytes, l = .write bytes ∧ h.output = .idle ∧ h'.output = .subscriber bytes) ∨
    (∃ now bytes, l = .subscriber now ∧ h.output = .subscriber bytes ∧
      h'.output = .push bytes h.session.io.subscriber) ∨
    (∃ bytes conn, l = .push ∧ h.output = .push bytes conn ∧ h'.output = .idle) ∨
    (l ≠ .push ∧ h'.output = h.output) := by
  cases l with
  | write bytes =>
    simp only [Handoff.next] at hn
    split at hn <;> cases hn
    rename_i hidle
    exact .inl ⟨bytes, rfl, hidle, rfl⟩
  | subscriber now =>
    simp only [Handoff.next] at hn
    split at hn <;> cases hn
    rename_i bytes hout
    exact .inr (.inl ⟨now, bytes, rfl, hout, rfl⟩)
  | push =>
    simp only [Handoff.next] at hn
    split at hn <;> cases hn
    · rename_i bytes conn hout
      exact .inr (.inr (.inl ⟨bytes, some conn, rfl, hout, rfl⟩))
    · rename_i bytes hout
      exact .inr (.inr (.inl ⟨bytes, none, rfl, hout, rfl⟩))
  | attach => exact .inr (.inr (.inr ⟨by simp, (stage_attach hn).1⟩))
  | control conn event =>
    simp only [Handoff.next] at hn
    split at hn <;> cases hn <;> exact .inr (.inr (.inr ⟨by simp, rfl⟩))
  | close conn code =>
    cases hn
    exact .inr (.inr (.inr ⟨by simp, rfl⟩))
  | drain =>
    simp only [Handoff.next] at hn
    split at hn <;> cases hn
    exact .inr (.inr (.inr ⟨by simp, rfl⟩))

end Handoff

/-! ## One step -/

namespace Proxied

variable {call : AttachCall} {m m' : Proxied} {l : Label} {reg : Registration}
  {conn : ConnGeneration}

/-- What a step is. -/
inductive Moves (call : AttachCall) (m : Proxied) : Label → Proxied → Prop
  | process {chunk : List UInt8} (hidle : m.handoff.output = .idle) (hnone : m.forwarded = none) :
      Moves call m (.process chunk) { m with
        proxy := (m.proxy.process chunk).1
        forwarded := some (m.proxy.process chunk).2.1 }
  | write {kept : List UInt8} {h : Handoff} (hkept : m.forwarded = some kept)
      (hwrite : m.handoff.next call (.write kept) = some h) :
      Moves call m .write { m with handoff := h, forwarded := none }
  | resync {reg : Registration} (hstage : m.handoff.stage = .greeted reg)
      (hbefore : m.resynced = false) :
      Moves call m .resync { m with
        proxy := if call.startsFresh reg.replay then m.proxy.resync reg.replayed else m.proxy
        resynced := true }
  | other {k : Handoff.Label} {h : Handoff} (hpermits : m.permits k = true)
      (hother : m.handoff.next call k = some h) :
      Moves call m (.other k) { m with handoff := h, pushed := m.pushed ++ m.pushes k }

theorem moves_of_next (hn : m.next call l = some m') : m.Moves call l m' := by
  cases l with
  | process chunk =>
    simp only [next] at hn
    split at hn <;> cases hn
    rename_i hidle hnone
    exact .process hidle hnone
  | write =>
    obtain ⟨kept, hkept, hn⟩ := Option.bind_eq_some_iff.mp hn
    obtain ⟨h, hwrite, rfl⟩ := Option.map_eq_some_iff.mp hn
    exact .write hkept hwrite
  | resync =>
    simp only [next] at hn
    split at hn <;> cases hn
    rename_i reg hstage hbefore
    exact .resync hstage hbefore
  | other k =>
    simp only [next] at hn
    split at hn
    · rename_i hpermits
      obtain ⟨h, hother, rfl⟩ := Option.map_eq_some_iff.mp hn
      exact .other hpermits hother
    · cases hn

/-- A chunk that goes through `on_output` without an attach in between: what the proxy keeps of
it is written and handed on. -/
theorem run_output (call : AttachCall) (hidle : m.handoff.output = .idle)
    (hnone : m.forwarded = none) (chunk : List UInt8) (now : Instant) :
    (Trace.run (next call) m
        [.process chunk, .write, .other (.subscriber now), .other .push]).map
      (fun m' => (m'.handoff.session, m'.proxy)) =
    some (m.handoff.session.onOutput (m.proxy.process chunk).2.1 now,
      (m.proxy.process chunk).1) := by
  have halone := Handoff.run_output call hidle (m.proxy.process chunk).2.1 now
  simp only [Trace.run] at halone ⊢
  obtain ⟨h₁, hwrite, halone⟩ := Option.bind_eq_some_iff.mp halone
  obtain ⟨h₂, hcopy, halone⟩ := Option.bind_eq_some_iff.mp halone
  obtain ⟨h₃, hpush, halone⟩ := Option.bind_eq_some_iff.mp halone
  obtain rfl := Option.some.inj halone
  simp only [next, hidle, hnone, permits, Option.bind_some, hwrite, Option.map_some, if_true,
    hcopy, hpush]

/-! ## Undisturbed: an attach on its own -/

/-- An attach that takes steps while no chunk comes. -/
def Alone (call : AttachCall) : Proxied → Proxied → Prop :=
  Relation.ReflTransGen fun m m' =>
    m.next call (.other .attach) = some m' ∨ m.next call .resync = some m'

/-- What the attach has made of the proxy, where it is. -/
def Undisturbed (call : AttachCall) (proxy : CapabilityProxy) (m : Proxied) : Prop :=
  match m.handoff.stage with
  | .coming _ | .seated _ => m.resynced = false ∧ m.proxy = proxy
  | .greeted reg | .returned reg =>
    m.resynced = true ∧
      m.proxy = if call.startsFresh reg.replay then proxy.resync reg.replayed else proxy
  | .refused => True

/-- A step of the attach behind the proxy, with the resync right after the notice. -/
theorem Undisturbed.step {proxy : CapabilityProxy} {h : Handoff} (hu : m.Undisturbed call proxy)
    (hn : m.handoff.next call .attach = some h) :
    ∃ m', m'.handoff = h ∧ m'.Undisturbed call proxy ∧ m.Alone call m' := by
  have hpermits : m.permits .attach = true := by
    unfold Undisturbed at hu
    simp only [permits]
    split
    · rename_i reg hstage
      rw [hstage] at hu
      exact hu.1
    · rfl
  have hstep : m.next call (.other .attach) =
      some { m with handoff := h, pushed := m.pushed ++ m.pushes .attach } := by
    simp only [Proxied.next, hpermits, if_true, hn, Option.map_some]
  unfold Undisturbed at hu
  obtain ⟨-, ⟨-, hsame | hrefused | ⟨reg, ⟨hbefore, hafter⟩ | ⟨hbefore, hafter⟩⟩⟩ |
    ⟨reg, hbefore, hafter, -⟩⟩ := Handoff.stage_attach hn
  · refine ⟨_, rfl, ?_, .single (.inl hstep)⟩
    simp only [Undisturbed, hsame]
    exact hu
  · refine ⟨_, rfl, ?_, .single (.inl hstep)⟩
    simp only [Undisturbed, hrefused]
  · rw [hbefore] at hu
    obtain ⟨hresynced, hproxy⟩ := hu
    have hresync : Proxied.next call
        { m with handoff := h, pushed := m.pushed ++ m.pushes .attach } .resync =
        some { m with
          handoff := h
          pushed := m.pushed ++ m.pushes .attach
          proxy := if call.startsFresh reg.replay then m.proxy.resync reg.replayed else m.proxy
          resynced := true } := by
      simp only [Proxied.next, hafter, hresynced]
    refine ⟨_, rfl, ?_, .tail (.single (.inl hstep)) (.inr hresync)⟩
    simp only [Undisturbed, hafter, hproxy, and_self]
  · rw [hbefore] at hu
    refine ⟨_, rfl, ?_, .single (.inl hstep)⟩
    simp only [Undisturbed, hafter]
    exact hu
  · rw [hbefore] at hu
    refine ⟨_, rfl, ?_, .single (.inl hstep)⟩
    simp only [Undisturbed, hafter]
    exact hu

/-- An attach that is not interrupted does to the session what `attachWithReplay` does, and to the
proxy what its resync does, if it starts the client fresh. -/
theorem alone_attach {s s' : Session} {offset : Nat} (stream : List UInt8)
    (proxy : CapabilityProxy)
    (h : s.attachWithReplay call.policy call.scrollbackReplay call.generation call.size call.since
      call.now = (s', .ok (conn, offset))) :
    ∃ reg m', reg.conn = conn ∧ reg.streamOffset = offset ∧
      (start s stream proxy).Alone call m' ∧
      m'.handoff = Handoff.only s' stream (.returned reg) ∧
      m'.proxy = if call.startsFresh reg.replay then proxy.resync reg.replayed else proxy := by
  obtain ⟨reg, hconn, hoffset, halone⟩ := Handoff.alone_attach stream h
  have hlift : ∀ h', Handoff.Alone call (.start s stream) h' →
      ∃ m', m'.handoff = h' ∧ m'.Undisturbed call proxy ∧
        (start s stream proxy).Alone call m' := by
    intro h' hpath
    induction hpath with
    | refl => exact ⟨start s stream proxy, rfl, ⟨rfl, rfl⟩, .refl⟩
    | tail _ hlast ih =>
      obtain ⟨m₁, rfl, hu, hpath⟩ := ih
      obtain ⟨m', hm', hu', hstep⟩ := hu.step hlast
      exact ⟨m', hm', hu', hpath.trans hstep⟩
  obtain ⟨m', hm', hu, hpath⟩ := hlift _ halone
  have hstage : m'.handoff.stage = .returned reg := by
    rw [hm']
    rfl
  simp only [Undisturbed, hstage] at hu
  exact ⟨reg, m', hconn, hoffset, hpath, hm', hu.2⟩

/-! ## The invariant -/

/-- Neither the slot nor the pump has seen the connection, and nothing was pushed to it. -/
structure Unseen (m : Proxied) (conn : ConnGeneration) : Prop where
  subscriber : m.handoff.session.io.subscriber ≠ some conn
  output : ∀ bytes, m.handoff.output ≠ .push bytes (some conn)
  pushed : m.deliveredTo conn = []

/-- What holds where the attach is. -/
def Phase (m : Proxied) : Stage → Prop
  | .coming conn => m.Unseen conn ∧ m.resynced = false
  | .seated reg => m.handoff.session.io.subscriber = some reg.conn ∧ m.resynced = false
  | .greeted reg => m.handoff.session.io.subscriber = some reg.conn
  | .returned reg => m.handoff.session.io.subscriber = some reg.conn ∧ m.resynced = true
  | .refused => True

structure Seated (m : Proxied) : Prop where
  pump : ∀ kept, m.forwarded = some kept → m.handoff.output = .idle
  phase : m.Phase m.handoff.stage

/-- The mirror is that of a client that was fed the replay and has all the live chunks there are
for it. -/
def InStep (call : AttachCall) (m : Proxied) : Prop :=
  ∀ reg ∈ m.following call, m.proxy.Agrees (.observing reg.replayed (m.live reg.conn))

theorem seated_start {s : Session} (hs : s.fence.Valid) (stream : List UInt8)
    (proxy : CapabilityProxy) : (start s stream proxy).Seated := by
  refine ⟨?_, ⟨?_, ?_, rfl⟩, rfl⟩
  · intro kept hkept
    cases hkept
  · refine (hs.not_subscriber fun heq => ?_).2
    exact Nat.ne_of_lt hs.next (congrArg ConnGeneration.val heq)
  · intro bytes hpush
    cases hpush

theorem inStep_start (call : AttachCall) (s : Session) (stream : List UInt8)
    (proxy : CapabilityProxy) : (start s stream proxy).InStep call := by
  intro reg hreg
  simp [following, start] at hreg

theorem mem_following : reg ∈ m.following call ↔ m.resynced = true ∧
    m.handoff.stage.seat = some reg ∧ call.startsFresh reg.replay = true := by
  by_cases hresynced : m.resynced = true
  · simp [following, hresynced]
  · simp [following, hresynced]

theorem Phase.slot {stage : Stage} (hp : m.Phase stage) (hseat : stage.seat = some reg) :
    m.handoff.session.io.subscriber = some reg.conn := by
  cases stage <;> cases hseat
  case seated => exact hp.1
  case greeted => exact hp
  case returned => exact hp.1

/-- A step that leaves the slot, and what was unseen, as it was. -/
theorem Phase.frame {stage : Stage} (hp : m.Phase stage)
    (hslot : m'.handoff.session.io.subscriber = m.handoff.session.io.subscriber)
    (hresynced : m'.resynced = m.resynced)
    (hunseen : ∀ conn, m.Unseen conn → m'.Unseen conn) : m'.Phase stage := by
  cases stage with
  | coming conn => exact ⟨hunseen conn hp.1, hresynced.trans hp.2⟩
  | seated reg => exact ⟨hslot.trans hp.1, hresynced.trans hp.2⟩
  | greeted reg => exact hslot.trans hp
  | returned reg => exact ⟨hslot.trans hp.1, hresynced.trans hp.2⟩
  | refused => trivial

/-! ## What is delivered -/

/-- A push hands on the chunk that the pump holds. -/
theorem deliveredTo_push {h : Handoff} {bytes : List UInt8} {current : Option ConnGeneration}
    (hpush : m.handoff.output = .push bytes current) (conn : ConnGeneration) :
    deliveredTo { m with handoff := h, pushed := m.pushed ++ m.pushes .push } conn =
      m.deliveredTo conn ++ (OutputPc.push bytes current).chunk conn := by
  simp only [deliveredTo, pushes, hpush, List.filter_append, List.map_append]
  cases current with
  | none => rfl
  | some c =>
    by_cases hc : c = conn
    · simp [OutputPc.chunk, hc]
    · simp [OutputPc.chunk, hc]

theorem deliveredTo_other {h : Handoff} {k : Handoff.Label} (hk : k ≠ .push)
    (conn : ConnGeneration) :
    deliveredTo { m with handoff := h, pushed := m.pushed ++ m.pushes k } conn =
      m.deliveredTo conn := by
  have hnone : m.pushes k = [] := by
    cases k <;> first | rfl | exact absurd rfl hk
  rw [hnone, List.append_nil]
  rfl

/-- A chunk is for the connection in the slot all the way from the proxy to its queue. -/
theorem Seated.live_other (hI : m.Seated) {k : Handoff.Label} {h : Handoff}
    (hpermits : m.permits k = true) (hother : m.handoff.next call k = some h)
    (hslot : m.handoff.session.io.subscriber = some conn) :
    live { m with handoff := h, pushed := m.pushed ++ m.pushes k } conn = m.live conn := by
  rcases Handoff.output_cases hother with ⟨bytes, rfl, -⟩ | ⟨now, bytes, rfl, hout, hout'⟩ |
    ⟨bytes, current, rfl, hout, hout'⟩ | ⟨hk, hout⟩
  · cases hpermits
  · simp only [live, deliveredTo_other (show Handoff.Label.subscriber now ≠ .push by simp), hout,
      hout', OutputPc.chunk, hslot, if_true]
  · have hnone : m.forwarded = none := by
      cases hkept : m.forwarded with
      | none => rfl
      | some kept =>
        rw [hI.pump kept hkept] at hout
        cases hout
    rw [live, deliveredTo_push hout, live, hout]
    simp [hout', hnone, OutputPc.chunk]
  · simp only [live, deliveredTo_other hk, hout]

theorem Unseen.other (hu : m.Unseen conn) {k : Handoff.Label} {h : Handoff}
    (hother : m.handoff.next call k = some h)
    (hslot : h.session.io.subscriber = m.handoff.session.io.subscriber) :
    Unseen { m with handoff := h, pushed := m.pushed ++ m.pushes k } conn := by
  have hsub : h.session.io.subscriber ≠ some conn := by
    rw [hslot]
    exact hu.subscriber
  rcases Handoff.output_cases hother with ⟨bytes, rfl, -, hout'⟩ | ⟨now, bytes, rfl, -, hout'⟩ |
    ⟨bytes, current, rfl, hout, hout'⟩ | ⟨hk, hout⟩
  · refine ⟨hsub, ?_, ?_⟩
    · simp [hout']
    · rw [deliveredTo_other (by simp)]
      exact hu.pushed
  · refine ⟨hsub, ?_, ?_⟩
    · intro other hpush
      rw [hout'] at hpush
      exact hu.subscriber (OutputPc.push.inj hpush).2
    · rw [deliveredTo_other (by simp)]
      exact hu.pushed
  · refine ⟨hsub, ?_, ?_⟩
    · simp [hout']
    · have hne : current ≠ some conn := by
        rintro rfl
        exact hu.output bytes hout
      rw [deliveredTo_push hout, hu.pushed]
      simp [OutputPc.chunk, hne]
  · refine ⟨hsub, ?_, ?_⟩
    · rw [hout]
      exact hu.output
    · rw [deliveredTo_other hk]
      exact hu.pushed

/-! ## The steps keep it -/

theorem Seated.pump_other (hI : m.Seated) {k : Handoff.Label} {h : Handoff}
    (hother : m.handoff.next call k = some h) {kept : List UInt8}
    (hkept : m.forwarded = some kept) (hk : ∀ bytes, k ≠ .write bytes) : h.output = .idle := by
  have hidle := hI.pump kept hkept
  rcases Handoff.output_cases hother with ⟨bytes, rfl, -⟩ | ⟨now, bytes, -, hout, -⟩ |
    ⟨bytes, current, -, hout, -⟩ | ⟨-, hout⟩
  · exact absurd rfl (hk bytes)
  · rw [hidle] at hout
    cases hout
  · rw [hidle] at hout
    cases hout
  · exact hout.trans hidle

theorem Seated.next (hI : m.Seated) (hn : m.next call l = some m') : m'.Seated := by
  cases moves_of_next hn with
  | process hidle hnone =>
    refine ⟨fun kept _ => hidle, hI.phase.frame rfl rfl ?_⟩
    exact fun conn hu => ⟨hu.subscriber, hu.output, hu.pushed⟩
  | write hkept hwrite =>
    obtain ⟨hstage, hslot⟩ := Handoff.stage_eq hwrite (by simp)
    refine ⟨fun kept hnone => (by cases hnone), ?_⟩
    show Phase _ _
    rw [hstage]
    refine hI.phase.frame hslot rfl fun conn hu => ⟨?_, ?_, hu.pushed⟩
    · rw [hslot]
      exact hu.subscriber
    · rcases Handoff.output_cases hwrite with ⟨bytes, -, -, hout'⟩ | ⟨now, bytes, hl, -⟩ |
        ⟨bytes, current, hl, -⟩ | ⟨-, hout⟩
      · simp [hout']
      · cases hl
      · cases hl
      · rw [hout]
        exact hu.output
  | resync hstage hbefore =>
    refine ⟨hI.pump, ?_⟩
    have hslot := hI.phase
    rw [hstage] at hslot
    show Phase _ _
    rw [hstage]
    exact hslot
  | @other k h hpermits hother =>
    have hwrite : ∀ bytes, k ≠ .write bytes := by
      rintro bytes rfl
      cases hpermits
    refine ⟨fun kept hkept => hI.pump_other hother hkept hwrite, ?_⟩
    show Phase _ h.stage
    by_cases hk : k = .attach
    · subst hk
      obtain ⟨-, ⟨hslot, hsame | hrefused | ⟨reg, ⟨hbefore, hafter⟩ | ⟨hbefore, hafter⟩⟩⟩ |
        ⟨reg, hbefore, hafter, hslot⟩⟩ := Handoff.stage_attach hother
      · rw [hsame]
        exact hI.phase.frame hslot rfl fun conn hu => hu.other hother hslot
      · rw [hrefused]
        trivial
      · have hseat : m.handoff.session.io.subscriber = some reg.conn := hI.phase.slot (by
          rw [hbefore]
          rfl)
        rw [hafter]
        exact hslot.trans hseat
      · have hseat : m.handoff.session.io.subscriber = some reg.conn := hI.phase.slot (by
          rw [hbefore]
          rfl)
        rw [hafter]
        refine ⟨hslot.trans hseat, ?_⟩
        simpa [permits, hbefore] using hpermits
      · have hphase := hI.phase
        rw [hbefore] at hphase
        rw [hafter]
        exact ⟨hslot, hphase.2⟩
    · obtain ⟨hstage, hslot⟩ := Handoff.stage_eq hother hk
      rw [hstage]
      exact hI.phase.frame hslot rfl fun conn hu => hu.other hother hslot

/-- Whom the proxy mirrors, it goes on mirroring. -/
theorem Seated.following_other (hI : m.Seated) {k : Handoff.Label} {h : Handoff}
    (hother : m.handoff.next call k = some h)
    (hreg : reg ∈ following call { m with handoff := h, pushed := m.pushed ++ m.pushes k }) :
    reg ∈ m.following call := by
  obtain ⟨hresynced, hseat, hfresh⟩ := mem_following.mp hreg
  have hresynced : m.resynced = true := hresynced
  refine mem_following.mpr ⟨hresynced, ?_, hfresh⟩
  by_cases hk : k = .attach
  · subst hk
    obtain ⟨-, ⟨-, hsame | hrefused | ⟨reg', ⟨hbefore, -⟩ | ⟨hbefore, hafter⟩⟩⟩ |
      ⟨reg', hbefore, -⟩⟩ := Handoff.stage_attach hother
    · rw [← hsame]
      exact hseat
    · rw [hrefused] at hseat
      cases hseat
    · -- The resync comes after the notice.
      have hphase := hI.phase
      rw [hbefore] at hphase
      rw [hphase.2] at hresynced
      cases hresynced
    · rw [hafter] at hseat
      rw [hbefore]
      exact hseat
    · have hphase := hI.phase
      rw [hbefore] at hphase
      rw [hphase.2] at hresynced
      cases hresynced
  · rw [← (Handoff.stage_eq hother hk).1]
    exact hseat

/-- Before the proxy takes the next chunk the pump holds none. -/
theorem live_of_idle (hidle : m.handoff.output = .idle) (hnone : m.forwarded = none)
    (conn : ConnGeneration) : m.live conn = m.deliveredTo conn := by
  simp [live, hidle, hnone, OutputPc.chunk]

/-- A chunk that goes through the proxy keeps it in step exactly when stripping does. -/
theorem inStep_process (hidle : m.handoff.output = .idle) (hnone : m.forwarded = none)
    (hstep : m.InStep call) (chunk : List UInt8) :
    InStep call { m with
        proxy := (m.proxy.process chunk).1
        forwarded := some (m.proxy.process chunk).2.1 } ↔
      ((m.following call).isSome = true → m.proxy.Strips chunk) := by
  have hlive : ∀ reg ∈ m.following call,
      (CapabilityProxy.Agrees (m.proxy.process chunk).1 (.observing reg.replayed (live { m with
        proxy := (m.proxy.process chunk).1
        forwarded := some (m.proxy.process chunk).2.1 } reg.conn)) ↔ m.proxy.Strips chunk) := by
    intro reg hreg
    rw [← CapabilityProxy.process_agrees_iff (hstep reg hreg) chunk,
      ← CapabilityProxy.observing_concat, live_of_idle hidle hnone]
    simp [live, hidle, OutputPc.chunk, deliveredTo]
  constructor
  · intro hafter hsome
    obtain ⟨reg, hreg⟩ := Option.isSome_iff_exists.mp hsome
    exact (hlive reg hreg).mp (hafter reg hreg)
  · intro hstrips reg hreg
    exact (hlive reg hreg).mpr (hstrips (Option.isSome_iff_exists.mpr ⟨reg, hreg⟩))

/-- A resync puts the proxy in step exactly when the live chunks up to then leave the emulator
alone. -/
theorem inStep_resync {reg : Registration} (hstage : m.handoff.stage = .greeted reg) :
    InStep call { m with
        proxy := if call.startsFresh reg.replay then m.proxy.resync reg.replayed else m.proxy
        resynced := true } ↔ m.Synced call .resync := by
  have hseat : m.handoff.stage.seat = some reg := by
    rw [hstage]
    rfl
  constructor
  · intro hafter reg' hreg' hfresh
    obtain rfl := Option.some.inj (hseat.symm.trans hreg')
    have hagrees := hafter reg (mem_following.mpr ⟨rfl, hseat, hfresh⟩)
    rw [if_pos hfresh] at hagrees
    exact (CapabilityProxy.resync_agrees_iff _ _ _).mp hagrees
  · intro halone reg' hreg'
    obtain ⟨-, hseat', hfresh⟩ := mem_following.mp hreg'
    obtain rfl := Option.some.inj (hseat.symm.trans hseat')
    rw [if_pos hfresh]
    exact (CapabilityProxy.resync_agrees_iff _ _ _).mpr (halone reg hseat hfresh)

/-- The write of a chunk changes nothing about whom it is for. -/
theorem live_write {kept : List UInt8} {h : Handoff} (hkept : m.forwarded = some kept)
    (hwrite : m.handoff.next call (.write kept) = some h) (conn : ConnGeneration) :
    live { m with handoff := h, forwarded := none } conn = m.live conn := by
  simp only [Handoff.next] at hwrite
  split at hwrite <;> cases hwrite
  rename_i hidle
  simp [live, hkept, hidle, OutputPc.chunk, deliveredTo]

theorem following_write {kept : List UInt8} {h : Handoff}
    (hwrite : m.handoff.next call (.write kept) = some h) :
    following call { m with handoff := h, forwarded := none } = m.following call := by
  simp only [following, (Handoff.stage_eq hwrite (by simp)).1]

/-- A step keeps the proxy in step exactly when it is synced. -/
theorem Seated.inStep_iff (hI : m.Seated) (hstep : m.InStep call)
    (hn : m.next call l = some m') : m'.InStep call ↔ m.Synced call l := by
  cases moves_of_next hn with
  | process hidle hnone => exact inStep_process hidle hnone hstep _
  | resync hstage hbefore => exact inStep_resync hstage
  | @write kept h hkept hwrite =>
    refine iff_of_true (fun reg hreg => ?_) trivial
    rw [following_write hwrite] at hreg
    rw [live_write hkept hwrite]
    exact hstep reg hreg
  | other hpermits hother =>
    refine iff_of_true (fun reg hreg => ?_) trivial
    have hbefore := hI.following_other hother hreg
    have hslot := hI.phase.slot (mem_following.mp hbefore).2.1
    rw [hI.live_other hpermits hother hslot]
    exact hstep reg hbefore

/-! ## The end of the attach -/

/-- In step, the mirror matches in the end. -/
theorem Seated.mirrored (hI : m.Seated) (hstep : m.InStep call) : m.Mirrored call := by
  unfold Mirrored
  split
  · rename_i reg hstage
    intro hfresh hnone hidle
    have hphase := hI.phase
    rw [hstage] at hphase
    have hreg : reg ∈ m.following call :=
      mem_following.mpr ⟨hphase.2, by rw [hstage]; rfl, hfresh⟩
    have hagrees := hstep reg hreg
    rw [live_of_idle hidle hnone] at hagrees
    exact hagrees
  · trivial

/-- After the resync a step without a new chunk is synced. -/
theorem synced_of_resynced (hresynced : m.resynced = true) (hl : ∀ chunk, l ≠ .process chunk)
    (hn : m.next call l = some m') : m.Synced call l ∧ m'.resynced = true := by
  cases moves_of_next hn with
  | process hidle hnone => exact absurd rfl (hl _)
  | write hkept hwrite => exact ⟨trivial, hresynced⟩
  | resync hstage hbefore =>
    rw [hresynced] at hbefore
    cases hbefore
  | other hpermits hother => exact ⟨trivial, hresynced⟩

theorem Seated.settles (hI : m.Seated) (hstep : m.InStep call) : m.Settles call := by
  refine ⟨hI.mirrored hstep, fun hresynced m' hquiet => ?_⟩
  have hall : m'.Seated ∧ m'.InStep call ∧ m'.resynced = true := by
    induction hquiet with
    | refl => exact ⟨hI, hstep, hresynced⟩
    | tail _ hlast ih =>
      obtain ⟨l, hl, hn⟩ := hlast
      obtain ⟨hI₁, hstep₁, hresynced₁⟩ := ih
      obtain ⟨hsynced, hresynced₂⟩ := synced_of_resynced hresynced₁ hl hn
      exact ⟨hI₁.next hn, (hI₁.inStep_iff hstep₁ hn).mpr hsynced, hresynced₂⟩
  exact hall.1.mirrored hall.2.1

/-- How many steps the chunk under way and the attach have still to take, once the notice is
sent. -/
def remaining (m : Proxied) : Nat :=
  (match m.forwarded with
    | some _ => 3
    | none => 0) +
  (match m.handoff.output with
    | .idle => 0
    | .subscriber _ => 2
    | .push .. => 1) +
  (match m.handoff.attach with
    | .replayGap .. => 3
    | .replayBytes .. => 2
    | .resize .. => 1
    | _ => 0)

/-- `m'` is a step nearer to the end than `m`: the proxy mirrors the same client, which has or
will have the same chunks. -/
structure Nearer (call : AttachCall) (reg : Registration) (m m' : Proxied) : Prop where
  step : ∃ l, (∀ chunk, l ≠ .process chunk) ∧ m.next call l = some m'
  remaining : m'.remaining < m.remaining
  proxy : m'.proxy = m.proxy
  following : reg ∈ m'.following call
  live : m'.live reg.conn = m.live reg.conn

theorem Seated.nearer_other (hI : m.Seated) (hreg : reg ∈ m.following call) {k : Handoff.Label}
    {h : Handoff} (hpermits : m.permits k = true) (hother : m.handoff.next call k = some h)
    (hseat : h.stage.seat = m.handoff.stage.seat)
    (hremaining : remaining { m with handoff := h, pushed := m.pushed ++ m.pushes k } < m.remaining) :
    Nearer call reg m { m with handoff := h, pushed := m.pushed ++ m.pushes k } := by
  obtain ⟨hresynced, hseated, hfresh⟩ := mem_following.mp hreg
  refine ⟨⟨.other k, by simp, ?_⟩, hremaining, rfl, ?_, ?_⟩
  · simp only [Proxied.next, hpermits, if_true, hother, Option.map_some]
  · exact mem_following.mpr ⟨hresynced, hseat.trans hseated, hfresh⟩
  · exact hI.live_other hpermits hother (hI.phase.slot hseated)

theorem nearer_write (hreg : reg ∈ m.following call) {kept : List UInt8} {h : Handoff}
    (hkept : m.forwarded = some kept) (hwrite : m.handoff.next call (.write kept) = some h)
    (hremaining : remaining { m with handoff := h, forwarded := none } < m.remaining) :
    Nearer call reg m { m with handoff := h, forwarded := none } := by
  refine ⟨⟨.write, by simp, ?_⟩, hremaining, rfl, ?_, live_write hkept hwrite reg.conn⟩
  · simp only [Proxied.next, hkept, Option.bind_some, hwrite, Option.map_some]
  · rw [following_write hwrite]
    exact hreg

/-- The pump goes on with the chunk it has. -/
theorem Seated.nearer_pump (hI : m.Seated) (hreg : reg ∈ m.following call)
    (hbusy : m.forwarded ≠ none ∨ m.handoff.output ≠ .idle) : ∃ m', Nearer call reg m m' := by
  cases hkept : m.forwarded with
  | some kept =>
    have hidle := hI.pump kept hkept
    have hwrite : m.handoff.next call (.write kept) = some { m.handoff with
        session := m.handoff.session.writeBuffer kept
        stream := m.handoff.stream ++ kept
        output := .subscriber kept } := by
      simp only [Handoff.next, hidle]
    refine ⟨_, nearer_write hreg hkept hwrite ?_⟩
    simp only [remaining, hkept, hidle]
    omega
  | none =>
    cases hout : m.handoff.output with
    | idle =>
      rcases hbusy with hbusy | hbusy
      · exact absurd hkept hbusy
      · exact absurd hout hbusy
    | subscriber bytes =>
      have hother : m.handoff.next call (.subscriber 0) = some { m.handoff with
          session := m.handoff.session.touch 0
          output := .push bytes m.handoff.session.io.subscriber } := by
        simp only [Handoff.next, hout]
      refine ⟨_, hI.nearer_other hreg rfl hother rfl ?_⟩
      simp only [remaining, hkept, hout]
      omega
    | push bytes current =>
      cases current with
      | none =>
        have hother : m.handoff.next call .push = some { m.handoff with output := .idle } := by
          simp only [Handoff.next, hout]
        refine ⟨_, hI.nearer_other hreg rfl hother rfl ?_⟩
        simp only [remaining, hkept, hout]
        omega
      | some conn =>
        have hother : m.handoff.next call .push = some { m.handoff with
            session := m.handoff.session.onOutbound conn (·.pushBytes bytes)
            output := .idle } := by
          simp only [Handoff.next, hout]
        refine ⟨_, hI.nearer_other hreg rfl hother rfl ?_⟩
        simp only [remaining, hkept, hout]
        omega

/-- The attach pushes the replay and returns. -/
theorem Seated.nearer_attach (hI : m.Seated) (hreg : reg ∈ m.following call)
    (hstage : m.handoff.stage = .greeted reg) : ∃ m', Nearer call reg m m' := by
  obtain ⟨hresynced, -, -⟩ := mem_following.mp hreg
  have hpermits : m.permits .attach = true := by
    simp only [permits, hstage]
    exact hresynced
  have hother : ∀ pc s', m.handoff.attach.step call m.handoff.session = some (s', pc) →
      m.handoff.next call .attach = some { m.handoff with session := s', attach := pc } := by
    intro pc s' hstep
    simp only [Handoff.next, hstep, Option.map_some]
  cases hpc : m.handoff.attach with
  | replayGap reg' dropped bytes =>
    refine ⟨_, hI.nearer_other hreg hpermits (hother _ _ (by rw [hpc]; rfl)) ?_ ?_⟩
    · simp only [Handoff.stage, hpc]
    · simp only [remaining, hpc]
      omega
  | replayBytes reg' bytes =>
    refine ⟨_, hI.nearer_other hreg hpermits (hother _ _ (by rw [hpc]; rfl)) ?_ ?_⟩
    · simp only [Handoff.stage, hpc]
    · simp only [remaining, hpc]
      omega
  | resize reg' =>
    refine ⟨_, hI.nearer_other hreg hpermits (hother _ _ (by rw [hpc]; rfl)) ?_ ?_⟩
    · simp only [Handoff.stage, hpc, Stage.seat]
    · simp only [remaining, hpc]
      omega
  | _ => simp [Handoff.stage, hpc] at hstage

/-- Whomever the proxy mirrors, the attach can return and the pump can finish its chunk without
a new one, and the client then has all the chunks there were for it. -/
theorem Seated.finishes (hI : m.Seated) (hreg : reg ∈ m.following call) :
    ∃ m', m.Quietly call m' ∧ m'.handoff.stage = .returned reg ∧ m'.forwarded = none ∧
      m'.handoff.output = .idle ∧ m'.proxy = m.proxy ∧
      m'.deliveredTo reg.conn = m.live reg.conn := by
  induction hn : m.remaining using Nat.strongRecOn generalizing m with
  | _ n ih =>
    subst hn
    -- A step nearer to the end, and from there to the end.
    have hgo : (∃ m', Nearer call reg m m') → ∃ m', m.Quietly call m' ∧
        m'.handoff.stage = .returned reg ∧ m'.forwarded = none ∧ m'.handoff.output = .idle ∧
        m'.proxy = m.proxy ∧ m'.deliveredTo reg.conn = m.live reg.conn := by
      rintro ⟨m₁, hnearer⟩
      obtain ⟨l, hl, hstep⟩ := hnearer.step
      obtain ⟨m', hquiet, hstage, hnone, hidle, hproxy, hdelivered⟩ :=
        ih _ hnearer.remaining (hI.next hstep) hnearer.following rfl
      refine ⟨m', .head ⟨l, hl, hstep⟩ hquiet, hstage, hnone, hidle, ?_, ?_⟩
      · exact hproxy.trans hnearer.proxy
      · exact hdelivered.trans hnearer.live
    by_cases hbusy : m.forwarded ≠ none ∨ m.handoff.output ≠ .idle
    · exact hgo (hI.nearer_pump hreg hbusy)
    · rw [not_or, not_not, not_not] at hbusy
      obtain ⟨hresynced, hseat, -⟩ := mem_following.mp hreg
      have hphase := hI.phase
      cases hstage : m.handoff.stage with
      | greeted reg' =>
        rw [hstage] at hseat
        obtain rfl := Option.some.inj hseat
        exact hgo (hI.nearer_attach hreg hstage)
      | returned reg' =>
        rw [hstage] at hseat
        obtain rfl := Option.some.inj hseat
        exact ⟨m, .refl, hstage, hbusy.1, hbusy.2, rfl, (live_of_idle hbusy.2 hbusy.1 _).symm⟩
      | seated reg' =>
        rw [hstage] at hphase
        rw [hphase.2] at hresynced
        cases hresynced
      | coming conn =>
        rw [hstage] at hseat
        cases hseat
      | refused =>
        rw [hstage] at hseat
        cases hseat

/-- Out of step, the mirror is wrong in the end. -/
theorem Seated.inStep_of_settles (hI : m.Seated) (h : m.Settles call) : m.InStep call := by
  intro reg hreg
  obtain ⟨hresynced, -, hfresh⟩ := mem_following.mp hreg
  obtain ⟨m', hquiet, hstage, hnone, hidle, hproxy, hdelivered⟩ := hI.finishes hreg
  have hmirrored := h.2 hresynced m' hquiet
  simp only [Mirrored, hstage] at hmirrored
  have hagrees := hmirrored hfresh hnone hidle
  rw [hproxy, hdelivered] at hagrees
  exact hagrees

end Proxied

open Proxied

/-- However the pump and an attach interleave, the mirror matches what the new connection was fed
exactly when, for a client that starts fresh, the live chunks that it has from before the resync
are without effect after the replay, and stripping a later chunk leaves its kitty sequences as
they are. -/
theorem Proxied.settles_iff_synced (call : AttachCall) {s : Session} (hs : s.fence.Valid)
    (stream : List UInt8) (proxy : CapabilityProxy) (run : List Label) :
    Trace.AllStates (next call) (Settles call) (start s stream proxy) run ↔
      Trace.AllSteps (next call) (Synced call) (start s stream proxy) run := by
  have hinit : (start s stream proxy).Seated ∧ (start s stream proxy).InStep call :=
    ⟨seated_start hs stream proxy, inStep_start call s stream proxy⟩
  refine Trace.allStates_iff_allSteps (I := fun m => m.Seated ∧ m.InStep call) ?_ ?_ ?_ hinit
  · intro m hI
    exact hI.1.settles hI.2
  · intro m l m' hI hsynced hn
    exact ⟨hI.1.next hn, (hI.1.inStep_iff hI.2 hn).mpr hsynced⟩
  · intro m l m' hI hnot hn hsettles
    apply hnot
    exact (hI.1.inStep_iff hI.2 hn).mp ((hI.1.next hn).inStep_of_settles hsettles)

/-- A chunk in which nothing is torn may go through the proxy at any time. -/
theorem synced_of_untorn (call : AttachCall) (m : Proxied) {chunk : List UInt8}
    (hquery : ¬ Splice.Torn CapabilityProxy.query? chunk)
    (hkitty : ¬ Splice.TornAround CapabilityProxy.query? CapabilityProxy.kitty? chunk) :
    m.Synced call (.process chunk) :=
  fun _ => CapabilityProxy.strips_of_untorn hquery hkitty m.proxy

/-! ## The windows of the handoff -/

/-- An attach without a cursor. -/
def viewCall (scrollbackReplay : Bool) : AttachCall :=
  { freshCall with since := none, scrollbackReplay := scrollbackReplay }

def freshView : Proxied := start freshSession [] .new

/-- `on_output` as a whole. -/
def outputSteps (chunk : List UInt8) : List Proxied.Label :=
  [.process chunk, .write, .other (.subscriber 0), .other .push]

def attachTurns (n : Nat) : List Proxied.Label := List.replicate n (.other .attach)

/-- A push of the kitty flags 5. -/
def kittyPushFive : List UInt8 := ascii "\x1b[>5u"

/-- A client that is fed a push with the replay and pops it live. -/
theorem mirror_settles : Trace.AllStates (next (viewCall true)) (Settles (viewCall true)) freshView
    (outputSteps kittyPushFive ++ attachTurns 5 ++ [.resync] ++ attachTurns 2 ++
      outputSteps (ascii "\x1b[<u")) :=
  (settles_iff_synced (viewCall true) ready_fresh.valid [] .new _).mpr (by decide +kernel)

/-- No chunk is between the proxy and the ring when the ring is read, and in the end the mirror is
not that of the client. -/
def Mismirrors (call : AttachCall) (run : List Proxied.Label) : Prop :=
  Trace.AllSteps (next call) Stored freshView run ∧
    ¬ Trace.AllStates (next call) (Mirrored call) freshView run

theorem Mismirrors.of_run {call : AttachCall} {run : List Proxied.Label}
    (hstored : Trace.AllSteps (next call) Stored freshView run)
    (hrun : (Trace.run (next call) freshView run).map (fun m => decide (m.Mirrored call)) =
      some false) : Mismirrors call run := by
  refine ⟨hstored, fun hall => ?_⟩
  obtain ⟨m, hm, hf⟩ := hall.observe hrun
  exact of_decide_eq_false hf hm

/-- A chunk that goes to the new connection between its seat and the resync. -/
def forgottenPush : List Proxied.Label :=
  attachTurns 3 ++ outputSteps kittyPushFive ++ attachTurns 2 ++ [.resync] ++ attachTurns 1

/-- A chunk that is in the ring when it is read, and handed on after the replacement. -/
def doubledPush : List Proxied.Label :=
  [.process kittyPushFive, .write] ++ attachTurns 3 ++ [.other (.subscriber 0), .other .push] ++
    attachTurns 2 ++ [.resync] ++ attachTurns 2

/-- A query inside the introducer of a push, long after the attach. -/
def splicedPush : List Proxied.Label :=
  attachTurns 5 ++ [.resync] ++ attachTurns 1 ++ outputSteps (ascii "\x1b[\x1b[c>5u")

/-- The mirror forgets a push, misses that the client has it twice, or does not see it. -/
theorem mirror_mismatched : Mismirrors (viewCall false) forgottenPush ∧
    Mismirrors (viewCall true) doubledPush ∧ Mismirrors (viewCall false) splicedPush := by
  refine ⟨?_, ?_, ?_⟩
  · exact .of_run (by decide +kernel) (by decide +kernel)
  · exact .of_run (by decide +kernel) (by decide +kernel)
  · exact .of_run (by decide +kernel) (by decide +kernel)

end OpenabPty
