import OpenabPty.Openings
import OpenabPty.Effects
import OpenabPty.Fencing

/-!
# On whose word a terminal opens

The front door and the runtime as one program: an admin route goes on behind its gate to an
operation of the manager, and everything else that reaches the manager orders nothing. Every shell,
every attach token and every connection then goes back to an order of the operator.
-/

namespace OpenabPty

/-! ## What an operation may mint -/

/-- The name that a teardown is a part of a restart of. -/
def Teardown.restarts (td : Teardown) : Option SessionName :=
  match td.caller with
  | .restart _ => some td.name
  | _ => none

/-- The name that the operation may yet spawn a shell or mint a token for. -/
def Op.issuing : Op → Option SessionName
  | .adminCreate name _ | .restartGet name | .restartGeneration name _ | .restartIsAlive name _ _
  | .restartForget name _ | .restartTombstone name | .renewGet name | .renewIsAlive name _
  | .renewLock name _ | .renewClose name _ _ _ | .renewMint name _ _ => some name
  | .claimName sp | .spawn sp | .mint sp _ => some sp.name
  | .teardownLock td | .teardownRevoke td _ _ | .teardownClose td _ _ | .teardownClear td _ =>
    td.restarts
  | _ => none

def Task.issuing : Task → Option SessionName := Task.onOp Op.issuing

/-- What the connection that a task is attaches to. -/
def Task.attach? (t : Task) : Option Attach := t.conn?.bind Conn.attach?

section Issuing

variable {env : Env} {sh sh' : Shared} {name : SessionName}

/-- An operation that may mint has been one that may mint for the same name. -/
theorem Op.issuing_step {c : Choice} {op op' : Op} {ops : List Op} {sids : List Sid}
    (h : op.step env sh c = some (sh', op', ops, sids)) :
    (∀ o ∈ ops, o.issuing = none) ∧ ∀ name, op'.issuing = some name → op.issuing = some name := by
  obtain ⟨hgo, hops⟩ := flow_step h
  clear h
  refine ⟨fun o ho => ?_, fun name hname => ?_⟩
  · obtain ⟨other, sid, -, rfl⟩ := hops o ho
    rfl
  cases hgo with
  | tornForRestart td report base hcaller =>
    obtain rfl := Option.some.inj hname
    simp only [issuing, Teardown.restarts, hcaller]
  | create | claimed | spawned | restart | restartAbsent | restartGeneration | restartAlive
  | restartDead | restartForgotten | tombstoneTaken | markedDead | deadAlready | revoked | closed
  | renew | renewAlive | renewLocked | renewClosed => exact hname
  | _ => cases hname

theorem Task.issuing_step {c : Input} {t t' : Task} {new : List Task}
    (h : Task.step env sh t c = some (sh', t', new)) :
    (∀ u ∈ new, u.issuing = none) ∧ ∀ name, t'.issuing = some name → t.issuing = some name :=
  Task.onOp_step h (fun _ => rfl) fun _ _ _ _ ht hstep => ht ▸ Op.issuing_step hstep

theorem TokenEntries.getElem?_of_erase {entries : TokenEntries} {erased : SessionName}
    {stored : StoredAttachToken} (h : (entries.erase erased)[name]? = some stored) :
    entries[name]? = some stored := by
  rw [ToolsHub.getElem?_erase_name] at h
  split at h
  · cases h
  · exact h

theorem TokenEntries.getElem?_of_insert {entries : TokenEntries} {minted : SessionName}
    {new stored : StoredAttachToken} (h : (entries.insert minted new)[name]? = some stored) :
    entries[name]? = some stored ∨ some minted = some name := by
  rw [ToolsHub.getElem?_insert_name] at h
  split at h
  · rename_i heq
    exact .inr (congrArg some heq)
  · exact .inl h

/-- A change of one life keeps the names. -/
theorem Shared.LifeAt.names {changed sid : Sid} {g : Session.Life → Session.Life}
    {life : Session.Life} (h : sh.LifeAt sh' changed g) (hname : ∀ l, (g l).name = l.name)
    (hlife : sh'.life? sid = some life) :
    ∃ old, sh.life? sid = some old ∧ old.name = life.name := by
  rw [h sid] at hlife
  split at hlife
  · obtain ⟨old, hold, rfl⟩ := Option.map_eq_some_iff.mp hlife
    exact ⟨old, hold, (hname old).symm⟩
  · exact ⟨life, hlife, rfl⟩

/-- A token of the store was there, or the operation may issue it. -/
theorem Op.tokens_step {c : Choice} {op op' : Op} {ops : List Op} {sids : List Sid}
    {stored : StoredAttachToken} (h : op.step env sh c = some (sh', op', ops, sids))
    (hstored : sh'.tokens[name]? = some stored) :
    sh.tokens[name]? = some stored ∨ op.issuing = some name := by
  cases effect_step h with
  | idle hlife htokens | spawn hlife htokens | publish hlife htokens | kill _ _ _ htokens
  | clear hlife htokens => exact .inl (htokens ▸ hstored)
  | mint hlife htokens | renewMint hlife htokens =>
    rw [htokens] at hstored
    exact TokenEntries.getElem?_of_insert hstored
  | revoke hlife htokens | renew _ _ htokens =>
    rw [htokens] at hstored
    exact .inl (TokenEntries.getElem?_of_erase hstored)

/-- A shell had its name before, or the operation may issue it. -/
theorem Op.lives_step {c : Choice} {op op' : Op} {ops : List Op} {sids : List Sid} {sid : Sid}
    {life : Session.Life} (h : op.step env sh c = some (sh', op', ops, sids))
    (hl : sh'.life? sid = some life) :
    (∃ old, sh.life? sid = some old ∧ old.name = life.name) ∨ op.issuing = some life.name := by
  cases effect_step h with
  | idle hlife | mint hlife | publish hlife | revoke hlife | clear hlife | renewMint hlife =>
    exact .inl ⟨life, hlife sid ▸ hl, rfl⟩
  | spawn hlife =>
    rw [hlife sid] at hl
    split at hl
    · obtain rfl := Option.some.inj hl
      exact .inr rfl
    · exact .inl ⟨life, hl, rfl⟩
  | kill _ hkill => exact .inl (hkill.names (fun _ => rfl) hl)
  | renew _ hrenew => exact .inl (hrenew.names (fun _ => rfl) hl)

theorem Shared.Steady.getElem?_tokens {stored : StoredAttachToken} (h : sh.Steady sh')
    (hstored : sh'.tokens[name]? = some stored) : sh.tokens[name]? = some stored := by
  rcases h.tokens with htokens | ⟨expired, old, -, -, htokens⟩
  · exact htokens ▸ hstored
  · rw [htokens] at hstored
    exact TokenEntries.getElem?_of_erase hstored

/-- The tasks that are no operations issue nothing. -/
theorem Task.steady_or_op {c : Input} {t t' : Task} {new : List Task}
    (h : Task.step env sh t c = some (sh', t', new)) :
    sh.Steady sh' ∨ ∃ op op' ops sids, t = .op op ∧
      op.step env sh c.choice = some (sh', op', ops, sids) := by
  rcases step_cases h with ⟨op, op', ops, sids, rfl, hop, -, -⟩ |
    ⟨conn, conn', rfl, hconn, rfl, rfl⟩ | ⟨pump, rfl, hpump, rfl⟩
  · exact .inr ⟨op, op', ops, sids, rfl, hop⟩
  · exact .inl (Conn.step_steady hconn)
  · exact .inl (Pump.step_steady hpump)

theorem Task.tokens_step {c : Input} {t t' : Task} {new : List Task} {stored : StoredAttachToken}
    (h : Task.step env sh t c = some (sh', t', new)) (hstored : sh'.tokens[name]? = some stored) :
    sh.tokens[name]? = some stored ∨ t.issuing = some name := by
  rcases steady_or_op h with hsteady | ⟨op, op', ops, sids, rfl, hop⟩
  · exact .inl (hsteady.getElem?_tokens hstored)
  · exact Op.tokens_step hop hstored

theorem Task.lives_step {c : Input} {t t' : Task} {new : List Task} {sid : Sid}
    {life : Session.Life} (h : Task.step env sh t c = some (sh', t', new))
    (hl : sh'.life? sid = some life) :
    (∃ old, sh.life? sid = some old ∧ old.name = life.name) ∨ t.issuing = some life.name := by
  rcases steady_or_op h with hsteady | ⟨op, op', ops, sids, rfl, hop⟩
  · exact .inl ⟨life, hsteady.life sid ▸ hl, rfl⟩
  · exact Op.lives_step hop hl

/-- A connection attaches with a token of the store. -/
theorem Conn.token_of_attach {e : Arrival} {o o' : Conn} {a : Attach}
    (h : o.step env sh e = some (sh', o')) (ha : o'.attach? = some a) :
    o.attach? = some a ∨ ∃ stored, sh.tokens[a.name]? = some stored := by
  rcases (attach_step h).2 a ha with hkeep | ⟨r, name, g, rfl, hname, -, -⟩
  · exact .inl hkeep
  · subst hname
    simp only [step] at h
    split at h
    · cases h
      cases ha
    · rename_i grant hverified
      obtain ⟨stored, hstored, -⟩ := TokenEntries.verify_eq_ok.mp ⟨grant, hverified⟩
      exact .inr ⟨stored, hstored⟩

theorem Task.token_of_attach {c : Input} {t t' : Task} {new : List Task}
    (h : Task.step env sh t c = some (sh', t', new)) :
    (∀ u ∈ new, u.attach? = none) ∧ ∀ a, t'.attach? = some a →
      t.attach? = some a ∨ ∃ stored, sh.tokens[a.name]? = some stored := by
  rcases step_cases h with ⟨op, op', ops, sids, rfl, -, rfl, rfl⟩ |
    ⟨conn, conn', rfl, hconn, rfl, rfl⟩ | ⟨pump, rfl, hpump, rfl⟩
  · refine ⟨fun u hu => ?_, fun a ha => by cases ha⟩
    rcases List.mem_append.mp hu with hu | hu <;> obtain ⟨_, -, rfl⟩ := List.mem_map.mp hu <;> rfl
  · exact ⟨fun u hu => absurd hu List.not_mem_nil, fun a ha => Conn.token_of_attach hconn ha⟩
  · refine ⟨fun u hu => absurd hu List.not_mem_nil, fun a ha => ?_⟩
    rcases Pump.step_task hpump with ⟨pump', rfl⟩ | ⟨sid, rfl⟩ <;> cases ha

/-- No request has attached already. -/
theorem Task.attach?_entry {t : Task} (h : t.entry = true) : t.attach? = none := by
  cases t with
  | conn conn => cases conn <;> first | rfl | cases h
  | op op | pump pump => rfl

end Issuing

/-! ## Names that have been granted -/

/-- Shells, tokens and connections are there for granted names only, and so are the operations that
may issue more of them. -/
structure World.Granted (granted : SessionName → Prop) (w : World) : Prop where
  tasks : ∀ t ∈ w.tasks, ∀ name, t.issuing = some name → granted name
  tokens : ∀ name stored, w.shared.tokens[name]? = some stored → granted name
  lives : ∀ sid life, w.shared.life? sid = some life → granted life.name
  attaches : ∀ t ∈ w.tasks, ∀ a, t.attach? = some a → granted a.name

namespace World

variable {granted more : SessionName → Prop} {env : Env} {w w' : World}

theorem Granted.mono (h : w.Granted granted) (hmore : ∀ name, granted name → more name) :
    w.Granted more :=
  ⟨fun t ht name hname => hmore _ (h.tasks t ht name hname),
    fun name stored hs => hmore _ (h.tokens name stored hs),
    fun sid life hl => hmore _ (h.lives sid life hl),
    fun t ht a ha => hmore _ (h.attaches t ht a ha)⟩

theorem granted_init : World.init.Granted granted :=
  ⟨fun t ht => absurd ht List.not_mem_nil, fun name stored hs => by simp [init, Shared.init] at hs,
    fun sid life hl => by simp [init, Shared.init, Shared.life?] at hl,
    fun t ht => absurd ht List.not_mem_nil⟩

/-- A step grants nothing: only a call of an operation that may issue does. -/
theorem Granted.next {l : World.Label} (h : w.Granted granted)
    (hcall : ∀ t name, l = .call t → t.issuing = some name → granted name)
    (hnext : World.next env w l = some w') : w'.Granted granted := by
  cases l with
  | call t =>
    obtain ⟨hentry, rfl⟩ := Threads.next_call hnext
    refine ⟨fun u hu name hname => ?_, h.tokens, h.lives, fun u hu a ha => ?_⟩
    · rcases List.mem_append.mp hu with hu | hu
      · exact h.tasks u hu name hname
      · obtain rfl := List.mem_singleton.mp hu
        exact hcall u name rfl hname
    · rcases List.mem_append.mp hu with hu | hu
      · exact h.attaches u hu a ha
      · obtain rfl := List.mem_singleton.mp hu
        rw [Task.attach?_entry hentry] at ha
        cases ha
  | step i c =>
    obtain ⟨t, sh', t', new, ht, hstep, rfl⟩ := Threads.next_step hnext
    have hmem : t ∈ w.tasks := List.mem_of_getElem? ht
    obtain ⟨hnew, hkeeps⟩ := Task.issuing_step hstep
    obtain ⟨hnewConns, hattach⟩ := Task.token_of_attach hstep
    refine ⟨fun u hu name hname => ?_, fun name stored hs => ?_, fun sid life hl => ?_,
      fun u hu a ha => ?_⟩
    · rcases List.mem_append.mp hu with hu | hu
      · rcases List.mem_or_eq_of_mem_set hu with hu | rfl
        · exact h.tasks u hu name hname
        · exact h.tasks t hmem name (hkeeps name hname)
      · rw [hnew u hu] at hname
        cases hname
    · exact (Task.tokens_step hstep hs).elim (h.tokens name stored) (h.tasks t hmem name)
    · rcases Task.lives_step hstep hl with ⟨old, hold, hname⟩ | hissuing
      · exact hname ▸ h.lives sid old hold
      · exact h.tasks t hmem _ hissuing
    · rcases List.mem_append.mp hu with hu | hu
      · rcases List.mem_or_eq_of_mem_set hu with hu | rfl
        · exact h.attaches u hu a ha
        · rcases hattach a ha with hkept | ⟨stored, hstored⟩
          · exact h.attaches t hmem a hkept
          · exact h.tokens a.name stored hstored
      · rw [hnewConns u hu] at ha
        cases ha
  | env d =>
    obtain rfl := Threads.next_env hnext
    exact ⟨h.tasks, h.tokens, h.lives, h.attaches⟩

end World

/-! ## Behind the door -/

/-- What an admin route has the manager do: `create`, `restart_in_place`, `renew` and `kill`. -/
def Op.ordered : Op → Bool
  | .adminCreate .. | .restartGet _ | .renewGet _ | .killGet _ => true
  | _ => false

/-- What the runtime starts by itself: the tick of `spawn_ticker`, and the drain. -/
def Op.own : Op → Bool
  | .tick | .beginDrain _ | .shutdownSnapshot => true
  | _ => false

theorem Op.issuing_own {op : Op} (h : op.own = true) : op.issuing = none := by
  cases op <;> first | rfl | cases h

/-- The program with its front door. -/
structure Deployment where
  door : Door
  world : World
  /-- What the requests at the admin routes have ordered. -/
  orders : List (Nat × Op)

namespace Deployment

/-- Nothing has been ordered yet. -/
def start (d : Door) : Deployment := { door := d, world := .init, orders := [] }

/-- A request comes to the door, takes a step there, or its maps are iterated over in another order;
an admin request goes on behind its gate; a connection comes to the handler of its route; the
runtime starts something by itself; a task takes a step; time passes. -/
inductive Label where
  | enter (request : Request)
  | advance (i : Nat) (views : Views)
  | rehash (entries : List (IpAddr × FailureWindow)) (failures : Failures)
  | order (i : Nat) (op : Op)
  | attach (r : AttachRequest)
  | own (op : Op)
  | step (i : Nat) (c : Input)
  | pass (elapsed : Duration)

/-- A step at the door. -/
def atDoor (env : Env) (display : IpAddr → Text) (s : Deployment) (l : Door.Label) :
    Option Deployment :=
  (Door.next env display s.door l).map fun door => { s with door }

/-- A step of the runtime; the door sees its drain. -/
def inside (env : Env) (s : Deployment) (l : World.Label) : Option Deployment :=
  (World.next env s.world l).map fun world =>
    { s with world, door.draining := s.door.draining || world.shared.draining }

/-- What the program does. The door of the attach route only turns connections away, so here they
come to its handler as they like. -/
def next (env : Env) (display : IpAddr → Text) (s : Deployment) : Label → Option Deployment
  | .enter request => s.atDoor env display (.enter request)
  | .advance i views => s.atDoor env display (.advance i views)
  | .rehash entries failures => s.atDoor env display (.rehash entries failures)
  | .order i op =>
    if s.door.visits[i]?.map (·.phase) = some (.answered .admin) ∧ (∀ o ∈ s.orders, o.1 ≠ i) ∧
        op.ordered = true then
      (s.inside env (.call (.op op))).map fun s => { s with orders := s.orders ++ [(i, op)] }
    else none
  | .attach r => s.inside env (.call (.conn (.request r)))
  | .own op => if op.own = true then s.inside env (.call (.op op)) else none
  | .step i c => s.inside env (.step i c)
  | .pass elapsed => (s.atDoor env display (.pass elapsed)).bind (·.inside env (.env elapsed))

/-- An order of the operator stands behind the name: a request at the admin routes, with the
credential of the verifier, has gone on to an operation that may issue for it. -/
def Ordered (env : Env) (verifier : Digest) (s : Deployment) (name : SessionName) : Prop :=
  ∃ i op source headers credential, (i, op) ∈ s.orders ∧ op.issuing = some name ∧
    s.door.visits[i]? = some ⟨.admin source headers, .answered .admin⟩ ∧
    adminCredential headers = some credential ∧ env.sha256 credential = verifier

end Deployment

/-- What has been answered stays answered. -/
theorem Door.answered_next {env : Env} {display : IpAddr → Text} {d d' : Door} {l : Door.Label}
    {i : Nat} {request : Request} {outcome : Outcome} (h : Door.next env display d l = some d')
    (hi : d.visits[i]? = some ⟨request, .answered outcome⟩) :
    d'.visits[i]? = some ⟨request, .answered outcome⟩ := by
  cases l with
  | enter other =>
    cases h
    exact (List.getElem?_append_left (List.getElem?_eq_some_iff.mp hi).1).trans hi
  | advance j views =>
    obtain ⟨v, hv, hmove⟩ := Option.bind_eq_some_iff.mp h
    obtain ⟨⟨d₁, v'⟩, hstep, rfl⟩ := Option.map_eq_some_iff.mp hmove
    have hne : j ≠ i := by
      rintro rfl
      obtain rfl := Option.some.inj (hv.symm.trans hi)
      cases hstep
    change (d₁.visits.set j v')[i]? = _
    rw [(Door.step_spec hstep).1]
    exact (List.getElem?_set_ne hne).trans hi
  | drain | pass elapsed =>
    cases h
    exact hi
  | rehash entries failures =>
    simp only [Door.next] at h
    split at h <;> cases h
    exact hi

namespace Deployment

variable {env : Env} {display : IpAddr → Text} {d : Door} {s s' : Deployment}

/-- The names that the orders may be about. -/
def Named (s : Deployment) (name : SessionName) : Prop :=
  ∃ o ∈ s.orders, o.2.issuing = some name

/-- What holds at all times, after the steps `doorLabels` of the door. -/
structure Sound (env : Env) (display : IpAddr → Text) (d : Door) (s : Deployment) : Prop where
  door : ∃ doorLabels, Trace.run (Door.next env display) d doorLabels = some s.door
  granted : s.world.Granted s.Named
  answered : ∀ o ∈ s.orders, ∃ request, s.door.visits[o.1]? = some ⟨request, .answered .admin⟩

theorem sound_start : (start d).Sound env display d :=
  ⟨⟨[], rfl⟩, World.granted_init, fun _ ho => absurd ho List.not_mem_nil⟩

theorem Sound.knock (h : s.Sound env display d) {l : Door.Label} {door : Door}
    (hnext : Door.next env display s.door l = some door) :
    Sound env display d { s with door } := by
  obtain ⟨doorLabels, hrun⟩ := h.door
  refine ⟨⟨doorLabels ++ [l], ?_⟩, h.granted, fun o ho => ?_⟩
  · rw [Trace.run_append, hrun, Option.bind_some, Trace.run, hnext]
    rfl
  · obtain ⟨request, hi⟩ := h.answered o ho
    exact ⟨request, Door.answered_next hnext hi⟩

theorem Sound.atDoor (h : s.Sound env display d) {l : Door.Label}
    (hnext : s.atDoor env display l = some s') : s'.Sound env display d := by
  obtain ⟨door, hdoor, rfl⟩ := Option.map_eq_some_iff.mp hnext
  exact h.knock hdoor

theorem inside_orders {l : World.Label} (h : s.inside env l = some s') : s'.orders = s.orders := by
  obtain ⟨world, -, rfl⟩ := Option.map_eq_some_iff.mp h
  rfl

/-- Whatever happens inside, with the names that it may be about granted. -/
theorem Sound.inside (h : s.Sound env display d) {l : World.Label} (orders : List (Nat × Op))
    (hnext : s.inside env l = some s')
    (horders : ∀ o ∈ orders, ∃ request, s.door.visits[o.1]? = some ⟨request, .answered .admin⟩)
    (hcall : ∀ t name, l = .call t → t.issuing = some name →
      ∃ o ∈ s.orders ++ orders, o.2.issuing = some name) :
    Sound env display d { s' with orders := s.orders ++ orders } := by
  obtain ⟨world, hworld, rfl⟩ := Option.map_eq_some_iff.mp hnext
  have hanswered : ∀ o ∈ s.orders ++ orders,
      ∃ request, s.door.visits[o.1]? = some ⟨request, .answered .admin⟩ := by
    intro o ho
    exact (List.mem_append.mp ho).elim (h.answered o) (horders o)
  have hgranted : world.Granted (Named { s with orders := s.orders ++ orders }) := by
    refine World.Granted.next (h.granted.mono fun name hname => ?_) hcall hworld
    obtain ⟨o, ho, hissuing⟩ := hname
    exact ⟨o, List.mem_append_left _ ho, hissuing⟩
  have hsound : Sound env display d { s with world, orders := s.orders ++ orders } :=
    ⟨h.door, hgranted, hanswered⟩
  -- The door sees the drain in a step of its own, if at all.
  cases hdraining : world.shared.draining with
  | false => simpa only [hdraining, Bool.or_false] using hsound
  | true => simpa only [hdraining, Bool.or_true] using hsound.knock (l := .drain) rfl

/-- What orders nothing leaves the orders as they are. -/
theorem Sound.unordered (h : s.Sound env display d) {l : World.Label}
    (hnext : s.inside env l = some s') (hcall : ∀ t, l = .call t → t.issuing = none) :
    s'.Sound env display d := by
  have hsound := h.inside [] hnext (fun _ ho => absurd ho List.not_mem_nil)
    fun t name hl hname => by rw [hcall t hl] at hname; cases hname
  rwa [List.append_nil, ← inside_orders hnext] at hsound

theorem Sound.next (h : s.Sound env display d) {l : Label}
    (hnext : next env display s l = some s') : s'.Sound env display d := by
  cases l with
  | enter request => exact h.atDoor hnext
  | advance i views => exact h.atDoor hnext
  | rehash entries failures => exact h.atDoor hnext
  | order i op =>
    simp only [Deployment.next] at hnext
    split at hnext
    · rename_i hguard
      obtain ⟨hadmin, -, -⟩ := hguard
      obtain ⟨s₁, hinside, rfl⟩ := Option.map_eq_some_iff.mp hnext
      rw [inside_orders hinside]
      refine h.inside [(i, op)] hinside (fun o ho => ?_) fun t name hl hname => ?_
      · obtain rfl := List.mem_singleton.mp ho
        obtain ⟨⟨request, phase⟩, hi, rfl⟩ := Option.map_eq_some_iff.mp hadmin
        exact ⟨request, hi⟩
      · cases hl
        exact ⟨(i, op), List.mem_append_right _ (List.mem_singleton.mpr rfl), hname⟩
    · cases hnext
  | attach r =>
    refine h.unordered hnext fun t hl => ?_
    cases hl
    rfl
  | own op =>
    simp only [Deployment.next] at hnext
    split at hnext
    · rename_i hown
      refine h.unordered hnext fun t hl => ?_
      cases hl
      exact Op.issuing_own hown
    · cases hnext
  | step i c => exact h.unordered hnext fun t hl => by cases hl
  | pass elapsed =>
    simp only [Deployment.next] at hnext
    obtain ⟨s₁, hdoor, hinside⟩ := Option.bind_eq_some_iff.mp hnext
    exact (h.atDoor hdoor).unordered hinside fun t hl => by cases hl

/-- A granted name is one that the operator has ordered. -/
theorem Sound.ordered (h : s.Sound env display d) (hd : d.visits = []) {name : SessionName}
    (hname : s.Named name) : s.Ordered env d.admin.verifier name := by
  obtain ⟨⟨i, op⟩, ho, hissuing⟩ := hname
  obtain ⟨request, hi⟩ := h.answered _ ho
  obtain ⟨doorLabels, hrun⟩ := h.door
  cases Door.passed_of_run hd hrun hi with
  | admin hcredential hverifier =>
    exact ⟨i, op, _, _, _, ho, hissuing, hi, hcredential, hverifier⟩

/-- In every run of the runtime behind its door, in whatever order the requests, the connections,
the timers and the tasks take their steps: every shell, every attach token and every connection that
has got past its token is for a name that the operator has ordered, with the credential. -/
theorem ordered_run {ls : List Label} (hd : d.visits = [])
    (hrun : Trace.run (Deployment.next env display) (start d) ls = some s) :
    (∀ sid life, s.world.shared.life? sid = some life →
      s.Ordered env d.admin.verifier life.name) ∧
    (∀ name stored, s.world.shared.tokens[name]? = some stored →
      s.Ordered env d.admin.verifier name) ∧
    ∀ conn a, .conn conn ∈ s.world.tasks → conn.attach? = some a →
      s.Ordered env d.admin.verifier a.name := by
  have hsound : s.Sound env display d :=
    (Trace.AllStates.of_next (fun t l t' h hnext => h.next hnext) sound_start).last hrun
  exact ⟨fun sid life hl => hsound.ordered hd (hsound.granted.lives sid life hl),
    fun name stored hs => hsound.ordered hd (hsound.granted.tokens name stored hs),
    fun conn a hconn ha => hsound.ordered hd (hsound.granted.attaches _ hconn a ha)⟩

/-- The operator, whose credential is `key` where SHA-256 is the identity, creates `sh`; a client
attaches with the token. -/
def orderedAttach : List Label :=
  .enter (.admin (.v4 1) ⟨some (ascii "Bearer key"), none⟩) ::
    .replicate 7 (.advance 0 ⟨.init, .init, .init, .new 1⟩) ++
    [.order 0 (.adminCreate .sh .default), .step 0 {}, .step 0 {}, .step 0 {},
      .step 0 { choice := { raw := some [7] } }, .step 0 {}, .step 0 {},
      .attach { token := ascii "07", session := ascii "sh", since := none, rows := none,
                cols := none },
      .step 2 {}, .step 2 {}, .step 2 {}, .step 2 {}]

theorem ordered_run_orderedAttach :
    let door : Door :=
      { toolsHub := false, upgrades := .default, admin := .new id (ascii "key") 4 100 0,
        draining := false, abuse := ⟨0, 0, 0⟩, visits := [] }
    ∃ s a, Trace.run (Deployment.next .default fun _ => []) (start door) orderedAttach = some s ∧
      s.world.tasks[2]?.bind Task.attach? = some a ∧ a.name = .sh ∧
      s.Ordered .default (ascii "key") .sh := by
  intro door
  have hattached : ((Trace.run (Deployment.next .default fun _ => []) (start door)
      orderedAttach).bind fun s => (s.world.tasks[2]?.bind Task.attach?).map (·.name)) =
        some .sh := by decide +kernel
  obtain ⟨s, hrun, hname⟩ := Option.bind_eq_some_iff.mp hattached
  obtain ⟨a, hattach, hsh⟩ := Option.map_eq_some_iff.mp hname
  obtain ⟨t, ht, ha⟩ := Option.bind_eq_some_iff.mp hattach
  obtain ⟨conn, hconn, hconnAttach⟩ := Option.bind_eq_some_iff.mp ha
  obtain rfl := Task.eq_conn_of_conn? hconn
  refine ⟨s, a, hrun, hattach, hsh, ?_⟩
  rw [← hsh]
  exact (ordered_run rfl hrun).2.2 conn a (List.mem_of_getElem? ht) hconnAttach

end Deployment

end OpenabPty
