import OpenabPty.Deadlines
import OpenabPty.Frames

/-!
# Invariants of every session, and the sizes of windows

What holds of a new session and is kept by each section that works on a session holds of every
session at all times: `World.allStates_everywhere`. The sizes that the sections get from requests
and frames are those that `WindowSize::validated` lets through, so the kernel is told no other.
-/

namespace OpenabPty

/-- A predicate that holds of new sessions and that every section keeps; the sizes they get are
valid. -/
structure Session.Kept (env : Env) (P : Session → Prop) : Prop where
  new : ∀ name generation size now, WindowSize.Valid size →
    P (.new name generation size now env.config.scrollbackKib env.tierBestEffort env.policy)
  attachLocked : ∀ s generation size since now, WindowSize.Valid size → P s →
    P (s.attachLocked env.policy env.config.scrollbackReplay generation size since now).1
  setSize : ∀ s size, WindowSize.Valid size → P s → P (s.setSize size)
  controlResize : ∀ s size, WindowSize.Valid size → P s → P (s.controlResize size)
  touch : ∀ s now, P s → P (s.touch now)
  onOutbound : ∀ s conn f, P s → P (s.onOutbound conn f)
  onPongLocked : ∀ s conn, P s → P (s.onPongLocked conn)
  onMissedPingLocked : ∀ s conn, P s → P (s.onMissedPingLocked conn).1
  detach : ∀ s conn, P s → P (s.detach conn)
  renewLocked : ∀ s, P s → P s.renewLocked.1
  teardownLocked : ∀ s cls, P s → P (s.teardownLocked cls).1
  tickLocked : ∀ s now, P s → P (s.tickLocked env.policy now).1
  writeBuffer : ∀ s bytes, P s → P (s.writeBuffer bytes)
  clearBuffer : ∀ s, P s → P s.clearBuffer

/-- Every session has it. -/
def Shared.EverySession (P : Session → Prop) (sh : Shared) : Prop := ∀ s ∈ sh.heap, P s

/-! ## The sizes on their way -/

/-- What reaches the runtime is from the wire: the size of a request has passed
`WindowSize::validated`, and a text frame comes with what the parser makes of its text. -/
def World.Label.FromWire (fromStr : String → Option Json) : World.Label → Prop
  | .call t => ∀ size, t.size = some size → ∃ rows cols, WindowSize.validated rows cols = some size
  | .step _ c => ∀ length parsed, c.arrival.incoming = .text length parsed →
      ∃ text, c.arrival.incoming = .ofText fromStr text
  | .env _ => True

/-- The frame of an arrival says no size that is not valid. -/
def Arrival.SizeValid (e : Arrival) : Prop :=
  ∀ length size, e.incoming = .text length (some (.resize size)) → size.Valid

theorem World.Label.FromWire.sizeValid {fromStr : String → Option Json} {i : Nat} {c : Input}
    (h : World.Label.FromWire fromStr (.step i c)) : c.arrival.SizeValid := by
  intro length size hincoming
  obtain ⟨text, htext⟩ := h _ _ hincoming
  rw [hincoming, Incoming.ofText] at htext
  have hparsed := (Incoming.text.inj htext).2
  cases hresult : parseClientControl fromStr text with
  | error reject =>
    rw [hresult] at hparsed
    cases hparsed
  | ok control =>
    rw [hresult] at hparsed
    obtain rfl := Option.some.inj hparsed
    exact (parseClientControl_eq_ok_iff.mp hresult).2.1 size rfl

theorem WindowSize.default_valid : WindowSize.Valid .default := ⟨by decide, by decide⟩

/-! ## Sections -/

namespace Shared.EverySession

variable {P : Session → Prop} {env : Env} {sh sh' : Shared} {sid : Sid} {f : Session → Session}

theorem of_heap (h : sh.EverySession P) (hheap : sh'.heap = sh.heap) : sh'.EverySession P := by
  intro s hs
  rw [hheap] at hs
  exact h s hs

theorem modify (h : sh.EverySession P) (hf : ∀ s, P s → P (f s)) :
    (sh.modify sid f).EverySession P := by
  intro s hs
  obtain ⟨i, hi⟩ := List.mem_iff_getElem?.mp hs
  rw [heap_modify] at hi
  split_ifs at hi
  · obtain ⟨s', hs', rfl⟩ := Option.map_eq_some_iff.mp hi
    exact hf s' (h s' (List.mem_of_getElem? hs'))
  · exact h s (List.mem_of_getElem? hi)

end Shared.EverySession

section Step

variable {P : Session → Prop} {env : Env} {sh sh' : Shared}

/-- A size on its way in a read loop is the one that was there, or a frame says it. -/
theorem Reader.size_step {e : Arrival} {r r' : Reader} {pc pc' : ReaderPc} {size : WindowSize}
    (h : r.step sh e pc = some (sh', .inl (r', pc'))) (hsize : pc'.size = some size) :
    pc.size = some size ∨ ∃ length, e.incoming = .text length (some (.resize size)) := by
  cases pc
  case missedClose subscriber => cases subscriber <;> cases h
  all_goals grind [step, ReaderPc.size]

/-- A size on its way in a connection is the one that was there, or it has been validated, or a
frame says it. -/
theorem Conn.size_step {e : Arrival} {conn conn' : Conn} {size : WindowSize}
    (h : conn.step env sh e = some (sh', conn')) (hsize : conn'.size = some size) :
    conn.size = some size ∨ (∃ rows cols, WindowSize.validated rows cols = some size) ∨
      ∃ length, e.incoming = .text length (some (.resize size)) := by
  cases conn
  case reading a r pc =>
    obtain ⟨⟨sh₁, next⟩, hr, heq⟩ := Option.map_eq_some_iff.mp h
    cases next with
    | inl r' =>
      cases heq
      exact (Reader.size_step hr hsize).imp_right .inr
    | inr exit =>
      cases heq
      cases hsize
  case exiting a sid conn exit => cases exit <;> cases h <;> cases hsize
  case notice a sid reg =>
    cases h
    have hsame : (afterNotice a sid reg).size = some a.size := by
      unfold afterNotice
      split <;> rfl
    exact .inl (hsame.symm.trans hsize)
  case touch =>
    cases h
    cases hsize
  all_goals grind [step, Conn.size, attachSize]

theorem Pump.size_step {chunk : Option (List UInt8)} {pump : Pump} {t : Task}
    (h : pump.step sh chunk = some (sh', t)) : t.size = none := by
  cases pump <;> simp only [step] at h
  case idle => split at h <;> cases h <;> rfl
  case write | touch =>
    cases h
    rfl
  case subscriber =>
    obtain ⟨s, -, heq⟩ := Option.map_eq_some_iff.mp h
    cases heq
    rfl
  case push sid bytes current => cases current <;> cases h <;> rfl

/-- An operation carries its size on; a restart takes the default. -/
theorem Op.size_step {c : Choice} {op op' : Op} {ops : List Op} {sids : List Sid}
    (h : op.step env sh c = some (sh', op', ops, sids)) :
    (∀ size, op'.size = some size → op.size = some size ∨ size = .default) ∧
      ∀ o ∈ ops, o.size = none := by
  obtain ⟨hgo, hops⟩ := flow_step h
  clear h
  refine ⟨fun size hsize => ?_, fun o ho => ?_⟩
  · cases hgo <;> simp_all [Op.size]
  · obtain ⟨name, old, -, rfl⟩ := hops o ho
    rfl

/-- A section keeps what is kept, if the size it gets is valid. -/
theorem Session.Section.kept {now : Instant} {carried : Option WindowSize} {f : Session → Session}
    (h : Session.Section env now carried f) (hk : Session.Kept env P)
    (hsize : ∀ size, carried = some size → size.Valid) {s : Session} (hs : P s) : P (f s) := by
  cases h with
  | attachLocked hcarried generation since asked =>
    exact hk.attachLocked s generation _ since asked (hsize _ hcarried) hs
  | setSize hcarried => exact hk.setSize s _ (hsize _ hcarried) hs
  | controlResize hcarried => exact hk.controlResize s _ (hsize _ hcarried) hs
  | touch => exact hk.touch s now hs
  | onOutbound conn f => exact hk.onOutbound s conn (f s) hs
  | onPongLocked conn => exact hk.onPongLocked s conn hs
  | onMissedPingLocked conn => exact hk.onMissedPingLocked s conn hs
  | detach conn => exact hk.detach s conn hs
  | renewLocked => exact hk.renewLocked s hs
  | teardownLocked cls => exact hk.teardownLocked s cls hs
  | tickLocked read => exact hk.tickLocked s read hs
  | writeBuffer bytes => exact hk.writeBuffer s bytes hs
  | clearBuffer => exact hk.clearBuffer s hs

theorem Shared.Works.everySession {carried : Option WindowSize} (h : sh.Works env carried sh')
    (hk : Session.Kept env P) (hsize : ∀ size, carried = some size → size.Valid)
    (hsh : sh.EverySession P) : sh'.EverySession P := by
  cases h with
  | idle hheap => exact hsh.of_heap hheap
  | spawned hcarried name generation hheap =>
    refine EverySession.of_heap (fun s hs => ?_) hheap
    rcases List.mem_append.mp hs with hold | hnew
    · exact hsh s hold
    · rw [List.mem_singleton.mp hnew]
      exact hk.new _ _ _ _ (hsize _ hcarried)
  | worked sid hf hheap => exact (hsh.modify fun s => hf.kept hk hsize).of_heap hheap

end Step

/-! ## Runs -/

/-- Every session has `P`, and the sizes on their way are valid. -/
structure World.Everywhere (P : Session → Prop) (w : World) : Prop where
  sessions : w.shared.EverySession P
  sizes : ∀ t ∈ w.tasks, ∀ size, t.size = some size → size.Valid

section Run

variable {P : Session → Prop} {env : Env} {fromStr : String → Option Json}

/-- The sizes on their way after a step. -/
theorem Task.size_step {sh sh' : Shared} {c : Input} {t t' : Task} {new : List Task}
    (hsize : ∀ size, t.size = some size → size.Valid) (he : c.arrival.SizeValid)
    (h : Task.step env sh t c = some (sh', t', new)) :
    (∀ size, t'.size = some size → size.Valid) ∧ ∀ u ∈ new, u.size = none := by
  rcases step_cases h with ⟨op, op', ops, sids, rfl, hop, rfl, rfl⟩ |
    ⟨conn, conn', rfl, hconn, rfl, rfl⟩ | ⟨pump, rfl, hpump, rfl⟩
  · obtain ⟨hcarried, hops⟩ := Op.size_step hop
    refine ⟨fun size hs => ?_, fun u hu => ?_⟩
    · rcases hcarried size hs with hold | rfl
      · exact hsize size hold
      · exact WindowSize.default_valid
    · rcases List.mem_append.mp hu with hstarted | hpump
      · obtain ⟨o, ho, rfl⟩ := List.mem_map.mp hstarted
        exact hops o ho
      · obtain ⟨sid, -, rfl⟩ := List.mem_map.mp hpump
        rfl
  · refine ⟨fun size hs => ?_, fun u hu => absurd hu List.not_mem_nil⟩
    rcases Conn.size_step hconn hs with hold | ⟨rows, cols, hvalid⟩ | ⟨length, hframe⟩
    · exact hsize size hold
    · exact (WindowSize.validated_eq_some.mp hvalid).2.2
    · exact he length size hframe
  · refine ⟨fun size hs => ?_, fun u hu => absurd hu List.not_mem_nil⟩
    rw [Pump.size_step hpump] at hs
    cases hs

theorem World.everywhere_next {w w' : World} {l : World.Label} (hk : Session.Kept env P)
    (hl : l.FromWire fromStr) (hw : w.Everywhere P) (h : World.next env w l = some w') :
    w'.Everywhere P := by
  cases l with
  | call t =>
    obtain ⟨-, rfl⟩ := Threads.next_call h
    refine ⟨hw.sessions, fun u hu size hs => ?_⟩
    rcases List.mem_append.mp hu with hold | hcalled
    · exact hw.sizes u hold size hs
    · rw [List.mem_singleton.mp hcalled] at hs
      obtain ⟨rows, cols, hvalid⟩ := hl size hs
      exact (WindowSize.validated_eq_some.mp hvalid).2.2
  | step i c =>
    obtain ⟨t, s', t', new, ht, hs, rfl⟩ := Threads.next_step h
    have hsize := hw.sizes t (List.mem_of_getElem? ht)
    obtain ⟨ht', hnew⟩ := Task.size_step hsize hl.sizeValid hs
    refine ⟨(Task.works_step hs).everySession hk hsize hw.sessions, fun u hu size hsize => ?_⟩
    rcases List.mem_append.mp hu with hold | hstarted
    · rcases List.mem_or_eq_of_mem_set hold with hold | rfl
      · exact hw.sizes u hold size hsize
      · exact ht' size hsize
    · rw [hnew u hstarted] at hsize
      cases hsize
  | env d =>
    obtain rfl := Threads.next_env h
    exact ⟨hw.sessions.of_heap rfl, hw.sizes⟩

/-- What is kept by the sections holds of every session in every run. -/
theorem World.allStates_everywhere {ls : List World.Label} (hk : Session.Kept env P)
    (hls : ∀ l ∈ ls, l.FromWire fromStr) :
    Trace.AllStates (World.next env) (World.Everywhere P) World.init ls := by
  have hinit : World.init.Everywhere P :=
    ⟨fun _ hs => absurd hs List.not_mem_nil, fun _ ht => absurd ht List.not_mem_nil⟩
  exact Trace.AllStates.of_invariant (fun _ _ _ hw hl h => World.everywhere_next hk hl hw h) hinit
    (Trace.AllSteps.of_forall hls)

end Run

/-! ## Sessions at all times -/

/-- What holds of a session at all times: its size and the one that the kernel was told last are
valid, it is dead just if it was terminated, and whoever owns it has pings to miss. -/
structure Session.WellFormed (env : Env) (s : Session) : Prop where
  size : s.state.size.Valid
  control : ∀ size, s.control = some size → size.Valid
  terminated : s.state.termination.isSome = !s.state.alive
  limit : s.missedPingLimit = env.policy.missedPingsBeforeDetached
  missed : s.state.ownerConn ≠ ⟨0⟩ → s.state.missedPings < s.missedPingLimit

namespace Session

variable {env : Env} {s : Session}

theorem Env.missedPings_pos (env : Env) : 0 < env.policy.missedPingsBeforeDetached := by
  have hvalid := env.policyValid
  unfold SessionPolicy.validate at hvalid
  split_ifs at hvalid
  omega

theorem WellFormed.attachCas (h : s.WellFormed env) {generation : Generation} {size : WindowSize}
    {now : Instant} (hsize : size.Valid) :
    (s.attachCas env.policy generation size now).1.WellFormed env := by
  have hpos : 0 < s.missedPingLimit := h.limit ▸ Env.missedPings_pos env
  unfold Session.attachCas
  split
  · exact h
  · dsimp only
    split
    · exact ⟨h.size, h.control, h.terminated, h.limit, h.missed⟩
    · exact ⟨hsize, h.control, h.terminated, h.limit, fun _ => hpos⟩

theorem WellFormed.attachLocked (h : s.WellFormed env) {generation : Generation}
    {size : WindowSize} {since : Option Nat} {now : Instant} (hsize : size.Valid) :
    (s.attachLocked env.policy env.config.scrollbackReplay generation size since now).1.WellFormed
      env := by
  have hcas : (s.attachCas env.policy generation size now).1.WellFormed env := h.attachCas hsize
  unfold Session.attachLocked
  split <;> rename_i heq <;> rw [heq] at hcas
  · exact hcas
  · exact ⟨hcas.size, hcas.control, hcas.terminated, hcas.limit, hcas.missed⟩

/-- The last ping that may be missed gives the session back. -/
theorem WellFormed.onMissedPingLocked (h : s.WellFormed env) (conn : ConnGeneration) :
    (s.onMissedPingLocked conn).1.WellFormed env := by
  unfold Session.onMissedPingLocked
  split
  · exact h
  · dsimp only
    split
    · rename_i hfew
      exact ⟨h.size, h.control, h.terminated, h.limit, fun _ => hfew⟩
    · exact ⟨h.size, h.control, h.terminated, h.limit, fun hne => absurd rfl hne⟩

theorem WellFormed.onPongLocked (h : s.WellFormed env) (conn : ConnGeneration) :
    (s.onPongLocked conn).WellFormed env := by
  have hpos : 0 < s.missedPingLimit := h.limit ▸ Env.missedPings_pos env
  unfold Session.onPongLocked
  split
  · exact ⟨h.size, h.control, h.terminated, h.limit, fun _ => hpos⟩
  · exact h

theorem WellFormed.tickLocked (h : s.WellFormed env) (now : Instant) :
    (s.tickLocked env.policy now).1.WellFormed env := by
  unfold Session.tickLocked
  split
  · exact h
  · dsimp only
    split_ifs <;> exact ⟨h.size, h.control, h.terminated, h.limit, h.missed⟩

theorem kept_wellFormed (env : Env) : Session.Kept env (WellFormed env) where
  new name generation size now hsize :=
    ⟨hsize, fun _ h => (by cases h), rfl, rfl, fun h => absurd rfl h⟩
  attachLocked s generation size since now hsize h := h.attachLocked hsize
  setSize s size hsize h := ⟨hsize, h.control, h.terminated, h.limit, h.missed⟩
  controlResize s size hsize h :=
    ⟨h.size, fun _ heq => Option.some.inj heq ▸ hsize, h.terminated, h.limit, h.missed⟩
  touch s now h := ⟨h.size, h.control, h.terminated, h.limit, h.missed⟩
  onOutbound s conn f h := ⟨h.size, h.control, h.terminated, h.limit, h.missed⟩
  onPongLocked s conn h := h.onPongLocked conn
  onMissedPingLocked s conn h := h.onMissedPingLocked conn
  detach s conn h := by
    unfold Session.detach
    split
    · exact h
    · exact ⟨h.size, h.control, h.terminated, h.limit, fun hne => absurd rfl hne⟩
  renewLocked s h := ⟨h.size, h.control, h.terminated, h.limit, fun hne => absurd rfl hne⟩
  teardownLocked s cls h := ⟨h.size, h.control, rfl, h.limit, fun hne => absurd rfl hne⟩
  tickLocked s now h := h.tickLocked now
  writeBuffer s bytes h := ⟨h.size, h.control, h.terminated, h.limit, h.missed⟩
  clearBuffer s h := ⟨h.size, h.control, h.terminated, h.limit, h.missed⟩

end Session

/-- In every run on requests and frames from the wire, every session is well formed at all times,
and so is every size on its way to one. -/
theorem World.wellFormed_run {env : Env} {ls : List World.Label} (fromStr : String → Option Json)
    (hls : ∀ l ∈ ls, l.FromWire fromStr) :
    Trace.AllStates (World.next env) (World.Everywhere (Session.WellFormed env)) World.init ls :=
  World.allStates_everywhere (Session.kept_wellFormed env) hls

/-- A `resize`, and its text. -/
def resizeControl : ClientControl := .resize { rows := 50, cols := 120 }

def resizeText : String := "\x7b\"v\":1,\"type\":\"resize\",\"rows\":50,\"cols\":120\x7d"

/-- `serde_json::from_str` on this text. -/
def resizeFromStr (text : String) : Option Json :=
  if text = resizeText then some (.obj resizeControl.fields) else none

/-- Nothing is said of a size. -/
def World.Label.silent : World.Label → Bool
  | .call t => t.size.isNone
  | .step _ c =>
    match c.arrival.incoming with
    | .text .. => false
    | _ => true
  | .env _ => true

theorem World.Label.fromWire_of_silent {fromStr : String → Option Json} {ls : List World.Label}
    (hls : ls.all World.Label.silent = true) : ∀ l ∈ ls, l.FromWire fromStr := by
  intro l hl
  have hsilent := List.all_eq_true.mp hls l hl
  cases l with
  | call t =>
    intro size hsize
    simp [World.Label.silent, hsize] at hsilent
  | step i c =>
    intro length parsed htext
    simp [World.Label.silent, htext] at hsilent
  | env d => trivial

/-- The session of a create is spawned, and a client attaches. -/
def World.attaches : List World.Label :=
  [.step 0 {}, .step 0 {}, .step 0 {}, .step 0 { choice := { raw := some [7] } }, .step 0 {},
    .step 0 {},
    .call (.conn (.request { token := [48, 55], session := [115, 104], since := none,
                             rows := some 30, cols := some 100 })),
    .step 2 {}, .step 2 {}, .step 2 {}, .step 2 {}, .step 2 {}, .step 2 {}, .step 2 {}, .step 2 {},
    .step 2 {}, .step 2 {}, .step 2 {}]

/-- The client is pinged twice and misses the first ping. -/
def World.missesPing : List World.Label :=
  [.step 2 {}, .step 2 { arrival := { incoming := .tick } }, .step 2 {},
    .step 2 { arrival := { incoming := .tick } }, .step 2 {}, .step 2 {}]

/-- The session is killed. -/
def World.kills : List World.Label :=
  [.call (.op (.killGet .sh)), .step 3 {}, .step 3 {}, .step 3 {}, .step 3 {}, .step 3 {},
    .step 3 {}, .step 3 {}, .step 3 {}]

/-- While the size of the `resize` is on its way, the session has the one of the attach. -/
theorem World.wellFormed_run_resized :
    let resized : List World.Label :=
      .call (.op (.adminCreate .sh .default)) :: World.attaches ++
        .step 2 { arrival := { incoming := .ofText resizeFromStr resizeText } } ::
          [.step 2 {}, .step 2 {}]
    let ls := resized ++ World.missesPing ++ World.kills
    (Trace.run (World.next .default) World.init resized).map
        (fun w => (w.tasks[2]?.bind Task.size, w.shared.heap[0]?.map (·.control))) =
      some (some { rows := 50, cols := 120 }, some (some { rows := 30, cols := 100 })) ∧
    (Trace.run (World.next .default) World.init ls).map
        (fun w => w.shared.heap[0]?.map fun s => (s.state.missedPings, s.state.alive)) =
      some (some (1, false)) ∧
    Trace.AllStates (World.next .default)
      (World.Everywhere (Session.WellFormed .default)) World.init ls := by
  intro resized ls
  refine ⟨by decide +kernel, by decide +kernel, World.wellFormed_run resizeFromStr ?_⟩
  have hcreate : World.Label.FromWire resizeFromStr (.call (.op (.adminCreate .sh .default))) :=
    fun size hsize => ⟨24, 80, hsize⟩
  have hresize : World.Label.FromWire resizeFromStr
      (.step 2 { arrival := { incoming := .ofText resizeFromStr resizeText } }) :=
    fun _ _ _ => ⟨resizeText, rfl⟩
  have hattaches : ∀ l ∈ World.attaches, l.FromWire resizeFromStr :=
    World.Label.fromWire_of_silent rfl
  have hrest : ∀ l ∈ [.step 2 {}, .step 2 {}] ++ World.missesPing ++ World.kills,
      l.FromWire resizeFromStr := World.Label.fromWire_of_silent rfl
  simp only [ls, resized, List.forall_mem_append, List.forall_mem_cons] at hrest ⊢
  exact ⟨⟨⟨⟨hcreate, hattaches⟩, hresize, hrest.1.1⟩, hrest.1.2⟩, hrest.2⟩

end OpenabPty
