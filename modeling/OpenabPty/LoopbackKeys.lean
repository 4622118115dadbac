import OpenabPty.Base
import OpenabPty.ToolsHub

/-!
# The loopback keys of the children

A child gets the key of its tools endpoint at its spawn and keeps it for life. The hub forgets
keys by name: the sweep asks the manager whether the name exists, which it does only from
`publish` on, and `admin_kill` forgets the name after `kill` has let go of it.
-/

namespace OpenabPty

/-! ## The hub's housekeeping -/

/-- One critical section of `sweep` or of `forget_session`. -/
inductive HubStep where
  | expired
  | removeGrant (name : SessionName) (code : Nat)
  | removeAttached (name : SessionName) (code : Nat) (grant : Option Grant)
  | afterRemovals (name : SessionName) (code : Nat) (grant : Option Grant) (attached : Option Nat)
  | knownGrants
  | knownAttached (names : List SessionName)
  | knownKeys (names : List SessionName)
  | knownDetaches (names : List SessionName)
  | sessionExists (name : SessionName)
  | removeKey (name : SessionName)
  | removeLastDetach (name : SessionName)
  | stale
  | removeStale (name : SessionName)
  deriving DecidableEq

namespace HubStep

/-- The critical sections of `sweep`. -/
def sweep : List HubStep := [.expired, .knownGrants, .stale]

/-- The critical sections of `forget_session`. -/
def forgetSession (name : SessionName) : List HubStep :=
  [.removeKey name, .removeGrant name CloseCode.sessionEnded, .removeLastDetach name]

/-- One section: the hub after it, and the sections that come before what is left of the call. -/
def step (hub : ToolsHub) (sessionExists : SessionName → Bool) (now : Instant) :
    HubStep → ToolsHub × List HubStep
  | .expired => (hub, (hub.expired now).map (.removeGrant · CloseCode.ttlExpired))
  | .removeGrant name code =>
    (hub.removeGrant name, [.removeAttached name code hub.grants[name]?])
  | .removeAttached name code grant =>
    (hub.removeAttached name, [.afterRemovals name code grant hub.attached[name]?])
  | .afterRemovals name code grant attached =>
    (hub.afterRemovals name grant attached code now, [])
  | .knownGrants => (hub, [.knownAttached hub.grants.keys])
  | .knownAttached names => (hub, [.knownKeys (names ++ hub.attached.keys)])
  | .knownKeys names => (hub, [.knownDetaches (names ++ hub.loopbackKeys.keys)])
  | .knownDetaches names =>
    -- `sort` and `dedup`.
    (hub, (Std.TreeSet.ofList (names ++ hub.lastDetach.keys)).toList.map .sessionExists)
  | .sessionExists name => (hub, if sessionExists name then [] else forgetSession name)
  | .removeKey name => (hub.removeKey name, [])
  | .removeLastDetach name => ({ hub with lastDetach := hub.lastDetach.erase name }, [])
  | .stale => (hub, hub.stale.map .removeStale)
  | .removeStale name => (hub.removeAttached name, [])

/-- The name whose key a section removes. -/
def removesKey : HubStep → Option SessionName
  | .removeKey name => some name
  | _ => none

/-- Only `forget_session` touches the keys. -/
theorem keys_step (hub : ToolsHub) (sessionExists : SessionName → Bool) (now : Instant)
    {s : HubStep} (h : s.removesKey = none) :
    (s.step hub sessionExists now).1.loopbackKeys = hub.loopbackKeys := by
  cases s
  case afterRemovals name code grant attached =>
    simp only [step, ToolsHub.afterRemovals]
    cases attached <;> dsimp only <;> split <;> rfl
  case removeKey => cases h
  all_goals rfl

end HubStep

/-! ## The runtime with its hub -/

/-- The runtime, the hub, and the keys: `issued` is the key of a spawn whose child is not
started yet, by task; `handed` is what the child of each session of the heap got. -/
structure Keyed where
  world : World
  hub : ToolsHub
  issued : Std.TreeMap Nat (List UInt8)
  handed : List (List UInt8)
  chores : List (List HubStep)
  forgotten : List Nat

namespace Keyed

def init (maxTtl : Duration) : Keyed :=
  { world := World.init, hub := .new maxTtl, issued := ∅, handed := [], chores := [],
    forgotten := [] }

inductive Label where
  | world (l : World.Label)
  | issueLoopbackKey (i : Nat) (raw : Option (List UInt8))
  | sweep
  | forgetKilled (i : Nat)
  | chore (j : Nat)

/-- `manager.get(name).is_some()`. -/
def sessionExists (w : Keyed) (name : SessionName) : Bool :=
  w.world.shared.sessions[name]?.isSome

/-- The name a task is about to start a child for. -/
def spawnAt (w : Keyed) (i : Nat) : Option Spawn :=
  match w.world.tasks[i]? with
  | some (.op (.spawn sp)) => some sp
  | _ => none

/-- The key a child starts with goes into its environment; none is issued for a child of which
the spawner knows nothing yet. -/
def handOver (w : Keyed) : World.Label → Option Keyed
  | .step i c =>
    match w.spawnAt i, c.choice.spawned with
    | none, _ => some w
    | some _, .error _ => some { w with issued := w.issued.erase i }
    | some _, .ok () => w.issued[i]?.map fun key =>
      { w with issued := w.issued.erase i, handed := w.handed ++ [key] }
  | _ => some w

/-- The next critical section of the runtime or of the hub. -/
def next (env : Env) (w : Keyed) : Label → Option Keyed
  | .world l => (w.handOver l).bind fun handed =>
    (World.next env w.world l).map fun world => { handed with world := world }
  | .issueLoopbackKey i raw => (w.spawnAt i).bind fun sp =>
    if w.issued.contains i then none
    else
      let keyed := w.hub.issueLoopbackKey sp.name raw
      some { w with hub := keyed.1, issued := w.issued.insert i keyed.2 }
  | .sweep => some { w with chores := w.chores ++ [HubStep.sweep] }
  | .forgetKilled i =>
    match w.world.tasks[i]? with
    | some (.op (.returned (.report report))) =>
      if i ∈ w.forgotten then none
      else some { w with forgotten := i :: w.forgotten,
                         chores := w.chores ++ [HubStep.forgetSession report.session] }
    | _ => none
  | .chore j => w.chores[j]?.bind fun chore =>
    match chore with
    | [] => none
    | s :: rest =>
      let moved := s.step w.hub w.sessionExists w.world.shared.now
      some { w with hub := moved.1, chores := w.chores.set j (moved.2 ++ rest) }

/-- Every live session of the map has a key that works. -/
def KeysValid (w : Keyed) : Prop :=
  ∀ (name : SessionName) (sid : Sid) (key : List UInt8), w.world.shared.sessions[name]? = some sid →
    w.world.shared.isAlive sid = true → w.handed[sid]? = some key → key ≠ [] →
    w.hub.checkLoopbackKey name key = true

/-- The key of the child that a task has in hand under the name. -/
def keyOf (w : Keyed) (name : SessionName) (i : Nat) (t : Task) : Option (List UInt8) :=
  match t with
  | .op (.spawn sp) => if sp.name = name then w.issued[i]? else none
  | t => (t.spawning.filter (·.1.name = name)).bind fun p => w.handed[p.2]?

/-- The keys in use under the name: those of its spawns, and that of its live session. -/
def keysInUse (w : Keyed) (name : SessionName) : List (List UInt8) :=
  (w.world.tasks.zipIdx.filterMap fun p => w.keyOf name p.2 p.1) ++
    ((w.world.shared.sessions[name]?.filter w.world.shared.isAlive).bind fun sid =>
      w.handed[sid]?).toList

/-- No key is replaced or removed while it is in use. -/
def Spares (w : Keyed) : Label → Prop
  | .issueLoopbackKey i _ => ∀ sp ∈ w.spawnAt i, ∀ key ∈ w.keysInUse sp.name, key = []
  | .chore j => ∀ name ∈ (w.chores[j]?.bind List.head?).bind HubStep.removesKey,
    ∀ key ∈ w.keysInUse name, key = []
  | _ => True

instance (w : Keyed) (l : Label) : Decidable (w.Spares l) := by
  cases l <;> unfold Spares <;> infer_instance

/-- A key is in use. -/
inductive InUse (w : Keyed) (name : SessionName) (key : List UInt8) : Prop where
  | issued (i : Nat) (sp : Spawn) (ht : w.world.tasks[i]? = some (.op (.spawn sp)))
      (hname : sp.name = name) (hkey : w.issued[i]? = some key)
  | spawning (t : Task) (sp : Spawn) (sid : Sid) (ht : t ∈ w.world.tasks)
      (hspawning : t.spawning = some (sp, sid)) (hname : sp.name = name)
      (hkey : w.handed[sid]? = some key)
  | mapped (sid : Sid) (hmapped : w.world.shared.sessions[name]? = some sid)
      (halive : w.world.shared.isAlive sid = true) (hkey : w.handed[sid]? = some key)

theorem InUse.mem {w : Keyed} {name : SessionName} {key : List UInt8} (h : w.InUse name key) :
    key ∈ w.keysInUse name := by
  cases h with
  | issued i sp ht hname hkey =>
    refine List.mem_append_left _ (List.mem_filterMap.mpr ⟨(.op (.spawn sp), i), ?_, ?_⟩)
    · exact List.mem_zipIdx_iff_getElem?.mpr ht
    · simp only [keyOf, if_pos hname, hkey]
  | spawning t sp sid ht hspawning hname hkey =>
    obtain ⟨i, hi⟩ := List.mem_iff_getElem?.mp ht
    refine List.mem_append_left _ (List.mem_filterMap.mpr ⟨(t, i), ?_, ?_⟩)
    · exact List.mem_zipIdx_iff_getElem?.mpr hi
    · unfold keyOf
      split
      · rename_i hop
        obtain rfl : t = _ := hop
        cases hspawning
      · rw [hspawning, Option.filter_some, if_pos (decide_eq_true hname)]
        exact hkey
  | mapped sid hmapped halive hkey =>
    refine List.mem_append_right _ (Option.mem_toList.mpr ?_)
    rw [hmapped, Option.filter_some, if_pos halive]
    exact hkey

end Keyed

section Step

variable {env : Env} {sh sh' : Shared} {t t' : Task} {c : Input} {new : List Task}

/-- A live session of the map was there before, or its spawn has just published it. -/
theorem Task.mapped_step (h : Task.step env sh t c = some (sh', t', new)) (hI : sh.Registered)
    {name : SessionName} {sid : Sid} (hm : sh'.sessions[name]? = some sid)
    (ha : sh'.isAlive sid = true) :
    (sh.sessions[name]? = some sid ∧ sh.isAlive sid = true) ∨
      ∃ sp, t.spawning = some (sp, sid) ∧ sp.name = name := by
  have hkeep : sh.KeepsMap sh' → sh.sessions[name]? = some sid ∧ sh.isAlive sid = true :=
    fun hk => ⟨hk.sessions ▸ hm, hk.alive sid ha⟩
  rcases step_cases h with ⟨op, op', ops, sids, rfl, hop, rfl, rfl⟩ |
    ⟨conn, conn', rfl, hconn, rfl, rfl⟩ | ⟨pump, rfl, hpump, rfl⟩
  · cases hr : op.replaces with
    | none =>
      by_cases hspawn : ∃ sp, op = .spawn sp
      · obtain ⟨sp, rfl⟩ := hspawn
        simp only [Op.step] at hop
        split at hop <;> cases hop
        · exact .inl ⟨hm, ha⟩
        · have hlt := hI.allocated sid (hI.mapped name sid hm).1
          rw [Shared.isAlive, Shared.heap_allocate_of_lt sh env _ _ _ hlt] at ha
          exact .inl ⟨hm, ha⟩
      · exact .inl (hkeep (Op.step_keepsMap hop hr fun sp e => hspawn ⟨sp, e⟩))
    | some replaced =>
      cases op <;> simp only [Op.replaces, Option.some.injEq, reduceCtorEq] at hr <;>
        simp only [Op.step] at hop
      case publish sp new token =>
        cases hop
        have hm : (sh.publishNoted sp new).sessions[name]? = some sid := hm
        rw [Shared.sessions_publishNoted] at hm
        split at hm
        · obtain rfl := Option.some.inj hm
          exact .inr ⟨sp, rfl, ‹_›⟩
        · exact .inl ⟨hm, ha⟩
      case restartForget forgotten base =>
        cases hop
        rw [Shared.sessions_forget] at hm
        split at hm
        · cases hm
        · exact .inl ⟨hm, ha⟩
      case forget td report =>
        cases hop
        rw [Shared.sessions_forget] at hm
        split at hm
        · cases hm
        · exact .inl ⟨hm, ha⟩
  · exact .inl (hkeep (Conn.step_steady hconn).keepsMap)
  · exact .inl (hkeep (Pump.step_steady hpump).keepsMap)

end Step

namespace Keyed

variable {env : Env} {w w' : Keyed} {l : Label}

theorem spawnAt_eq_some {i : Nat} {sp : Spawn} (h : w.spawnAt i = some sp) :
    w.world.tasks[i]? = some (.op (.spawn sp)) := by
  unfold spawnAt at h
  split at h
  · rename_i ht
    rw [ht, Option.some.inj h]
  · cases h

theorem spawnAt_eq_none {i : Nat} (h : w.spawnAt i = none) (sp : Spawn) :
    w.world.tasks[i]? ≠ some (.op (.spawn sp)) := by
  intro ht
  rw [spawnAt, ht] at h
  cases h

/-- The invariant: the keys in use work. `issued` are keys of spawns that have no child yet. -/
structure Valid (w : Keyed) : Prop where
  base : w.world.Base
  length : w.handed.length = w.world.shared.heap.length
  issued : ∀ (i : Nat) (key : List UInt8), w.issued[i]? = some key → (w.spawnAt i).isSome = true
  keys : ∀ name key, w.InUse name key → key ≠ [] → w.hub.checkLoopbackKey name key = true

theorem Valid.keysValid (h : w.Valid) : w.KeysValid :=
  fun name sid key hmapped halive hkey => h.keys name key (.mapped sid hmapped halive hkey)

theorem valid_init (maxTtl : Duration) : (init maxTtl).Valid where
  base := World.base_init
  length := rfl
  issued i key h := by simp [init] at h
  keys name key h := by
    cases h with
    | issued i sp ht => cases ht
    | spawning t sp sid ht => cases ht
    | mapped sid hmapped => simp [init, World.init, Shared.init] at hmapped

/-- A step of the runtime that puts no new key in use. -/
theorem Valid.of_uses (h : w.Valid) (hbase : w'.world.Base)
    (hlength : w'.handed.length = w'.world.shared.heap.length) (hhub : w'.hub = w.hub)
    (hissued : ∀ (i : Nat) (key : List UInt8), w'.issued[i]? = some key →
      w.issued[i]? = some key ∧ w'.world.tasks[i]? = w.world.tasks[i]?)
    (hspawning : ∀ t ∈ w'.world.tasks, ∀ sp sid key, t.spawning = some (sp, sid) →
      w'.handed[sid]? = some key → w.InUse sp.name key)
    (hmapped : ∀ (name : SessionName) sid key, w'.world.shared.sessions[name]? = some sid →
      w'.world.shared.isAlive sid = true → w'.handed[sid]? = some key → w.InUse name key) :
    w'.Valid := by
  refine ⟨hbase, hlength, fun i key hkey => ?_, fun name key huse => ?_⟩
  · obtain ⟨hold, htasks⟩ := hissued i key hkey
    rw [spawnAt, htasks]
    exact h.issued i key hold
  · rw [hhub]
    refine h.keys name key ?_
    cases huse with
    | issued i sp ht hname hkey =>
      obtain ⟨hold, htasks⟩ := hissued i key hkey
      exact .issued i sp (htasks ▸ ht) hname hold
    | spawning t sp sid ht hsp hname hkey =>
      subst hname
      exact hspawning t ht sp sid key hsp hkey
    | mapped sid hm halive hkey => exact hmapped name sid key hm halive hkey

/-- A task that has its session in hand got its child's key. -/
theorem InUse.of_spawning {t : Task} {sp : Spawn} {sid : Sid} {key : List UInt8}
    (ht : t ∈ w.world.tasks) (hsp : t.spawning = some (sp, sid)) (hkey : w.handed[sid]? = some key) :
    w.InUse sp.name key := .spawning t sp sid ht hsp rfl hkey

theorem Valid.call (h : w.Valid) {t : Task} (hs : w.next env (.world (.call t)) = some w') :
    w'.Valid := by
  simp only [Keyed.next, handOver, Option.bind_some] at hs
  obtain ⟨world, hw, rfl⟩ := Option.map_eq_some_iff.mp hs
  have hbase := World.base_next h.base hw
  obtain ⟨hentry, rfl⟩ := Threads.next_call hw
  refine h.of_uses hbase h.length rfl (fun i key hkey => ⟨hkey, ?_⟩)
    (fun u hu sp sid key hsp hkey => ?_) fun name sid key hm halive hkey => .mapped sid hm halive hkey
  · obtain ⟨sp, hsp⟩ := Option.isSome_iff_exists.mp (h.issued i key hkey)
    exact List.getElem?_append_left (List.getElem?_eq_some_iff.mp (spawnAt_eq_some hsp)).1
  · rcases List.mem_append.mp hu with hu | hu
    · exact .of_spawning hu hsp hkey
    · obtain rfl := List.mem_singleton.mp hu
      rw [Task.spawning_entry hentry] at hsp
      cases hsp

/-- The task that moves is not about to start a child, or its child failed to start. -/
theorem Valid.moved (h : w.Valid) {i : Nat} {c : Input} {t t' : Task} {new : List Task}
    {sh' : Shared} {issued : Std.TreeMap Nat (List UInt8)} (ht : w.world.tasks[i]? = some t)
    (hstep : Task.step env w.world.shared t c = some (sh', t', new))
    (hbase : World.Base { shared := sh', tasks := w.world.tasks.set i t' ++ new })
    (hlength : sh'.heap.length = w.world.shared.heap.length)
    (hissued : ∀ (j : Nat) (key : List UInt8), issued[j]? = some key →
      w.issued[j]? = some key ∧ i ≠ j)
    (hsp : ∀ p, t'.spawning = some p → t.spawning = some p) :
    ({ w with issued := issued,
              world := { shared := sh', tasks := w.world.tasks.set i t' ++ new } } : Keyed).Valid := by
  have hmem : t ∈ w.world.tasks := List.mem_of_getElem? ht
  obtain ⟨hnew, -⟩ := Task.spawning_step hstep
  refine h.of_uses hbase (h.length.trans hlength.symm) rfl (fun j key hkey => ?_)
    (fun u hu sp sid key husp hkey => ?_) fun name sid key hm halive hkey => ?_
  · obtain ⟨hold, hij⟩ := hissued j key hkey
    obtain ⟨sp, hspawn⟩ := Option.isSome_iff_exists.mp (h.issued j key hold)
    have hlt := (List.getElem?_eq_some_iff.mp (spawnAt_eq_some hspawn)).1
    refine ⟨hold, ?_⟩
    rw [List.getElem?_append_left (by rwa [List.length_set]), List.getElem?_set_ne hij]
  · rcases List.mem_append.mp hu with hu | hu
    · rcases List.mem_or_eq_of_mem_set hu with hu | rfl
      · exact .of_spawning hu husp hkey
      · exact .of_spawning hmem (hsp _ husp) hkey
    · rw [hnew u hu] at husp
      cases husp
  · rcases Task.mapped_step hstep h.base.shared hm halive with ⟨hm, halive⟩ | ⟨sp, hsp, rfl⟩
    · exact .mapped sid hm halive hkey
    · exact .of_spawning hmem hsp hkey

/-- A child starts with the key that was issued for it. -/
theorem Valid.started (h : w.Valid) {i : Nat} {c : Input} {t' : Task} {new : List Task}
    {sh' : Shared} {sp : Spawn} {started : List UInt8}
    (ht : w.world.tasks[i]? = some (.op (.spawn sp)))
    (hstep : Task.step env w.world.shared (.op (.spawn sp)) c = some (sh', t', new))
    (hbase : World.Base { shared := sh', tasks := w.world.tasks.set i t' ++ new })
    (hlength : sh'.heap.length = w.world.shared.heap.length + 1)
    (hsp : t'.spawning = some (sp, w.world.shared.heap.length))
    (hkey : w.issued[i]? = some started) :
    ({ w with issued := w.issued.erase i, handed := w.handed ++ [started],
              world := { shared := sh', tasks := w.world.tasks.set i t' ++ new } } : Keyed).Valid := by
  have hmem : Task.op (.spawn sp) ∈ w.world.tasks := List.mem_of_getElem? ht
  have hold : ∀ {sid : Sid} {key : List UInt8}, sid < w.world.shared.heap.length →
      (w.handed ++ [started])[sid]? = some key → w.handed[sid]? = some key := by
    intro sid key hlt hk
    rwa [List.getElem?_append_left (by rwa [h.length])] at hk
  obtain ⟨hnew, -⟩ := Task.spawning_step hstep
  refine h.of_uses hbase ?_ rfl (fun j key hk => ?_) (fun u hu sp' sid key husp hk => ?_)
    fun name sid key hm halive hk => ?_
  · simp [h.length, hlength]
  · simp only [Std.TreeMap.getElem?_erase, Std.compare_eq_iff_eq] at hk
    split at hk
    · cases hk
    · rename_i hij
      obtain ⟨sp', hspawn⟩ := Option.isSome_iff_exists.mp (h.issued j key hk)
      have hlt := (List.getElem?_eq_some_iff.mp (spawnAt_eq_some hspawn)).1
      refine ⟨hk, ?_⟩
      dsimp only
      rw [List.getElem?_append_left (by rwa [List.length_set]), List.getElem?_set_ne hij]
  · have hother : u ∈ w.world.tasks → w.InUse sp'.name key := fun hu =>
      .of_spawning hu husp (hold
        (Shared.lt_of_life? ((h.base.tasks u hu).spawning sp' sid husp).1) hk)
    rcases List.mem_append.mp hu with hu | hu
    · rcases List.mem_or_eq_of_mem_set hu with hu | rfl
      · exact hother hu
      · rw [hsp] at husp
        cases husp
        rw [← h.length, List.getElem?_concat_length] at hk
        rw [← Option.some.inj hk]
        exact .issued i sp ht rfl hkey
    · rw [hnew u hu] at husp
      cases husp
  · rcases Task.mapped_step hstep h.base.shared hm halive with ⟨hm, halive⟩ | ⟨sp', hsp', -⟩
    · exact .mapped sid hm halive (hold
        (h.base.shared.allocated sid (h.base.shared.mapped name sid hm).1) hk)
    · cases hsp'

theorem Valid.step (h : w.Valid) {i : Nat} {c : Input}
    (hs : w.next env (.world (.step i c)) = some w') : w'.Valid := by
  simp only [Keyed.next] at hs
  obtain ⟨handed, hhand, hs⟩ := Option.bind_eq_some_iff.mp hs
  obtain ⟨world, hw, rfl⟩ := Option.map_eq_some_iff.mp hs
  have hbase := World.base_next h.base hw
  obtain ⟨t, sh', t', new, ht, hstep, rfl⟩ := Threads.next_step hw
  cases hsp : w.spawnAt i with
  | none =>
    simp only [handOver, hsp] at hhand
    obtain rfl := Option.some.inj hhand
    have hne : ∀ sp, t ≠ .op (.spawn sp) := by
      rintro sp rfl
      exact spawnAt_eq_none hsp sp ht
    refine h.moved ht hstep hbase (Task.length_step hstep hne) (fun j key hkey => ⟨hkey, ?_⟩)
      fun p hp => ?_
    · rintro rfl
      have hsome := h.issued i key hkey
      rw [hsp] at hsome
      cases hsome
    · rcases (Task.spawning_step hstep).2 p hp with hold | ⟨hspawn, -⟩
      · exact hold
      · exact absurd hspawn (hne p.1)
  | some sp =>
    obtain rfl : t = .op (.spawn sp) := Option.some.inj (ht.symm.trans (spawnAt_eq_some hsp))
    rcases Task.spawn_step hstep with ⟨error, herror, rfl, hnone⟩ | ⟨hok, hlength, hsp'⟩
    · simp only [handOver, hsp, herror] at hhand
      obtain rfl := Option.some.inj hhand
      refine h.moved ht hstep hbase rfl (fun j key hkey => ?_) fun p hp => ?_
      · simp only [Std.TreeMap.getElem?_erase, Std.compare_eq_iff_eq] at hkey
        split at hkey
        · cases hkey
        · exact ⟨hkey, ‹_›⟩
      · rw [hnone] at hp
        cases hp
    · simp only [handOver, hsp, hok] at hhand
      obtain ⟨key, hkey, rfl⟩ := Option.map_eq_some_iff.mp hhand
      exact h.started ht hstep hbase hlength hsp' hkey

/-- What the hub does without the runtime, as far as it concerns the keys. -/
theorem Valid.hub (h : w.Valid) (hworld : w'.world = w.world) (hissued : w'.issued = w.issued)
    (hhanded : w'.handed = w.handed)
    (hkeys : ∀ name key, w.InUse name key → key ≠ [] →
      w.hub.checkLoopbackKey name key = true → w'.hub.checkLoopbackKey name key = true) :
    w'.Valid := by
  refine ⟨hworld ▸ h.base, ?_, fun i key hkey => ?_, fun name key huse hne => ?_⟩
  · rw [hworld, hhanded, h.length]
  · rw [hissued] at hkey
    rw [spawnAt, hworld]
    exact h.issued i key hkey
  · have hold : w.InUse name key := by
      cases huse with
      | issued i sp ht hname hkey =>
        rw [hworld] at ht
        rw [hissued] at hkey
        exact .issued i sp ht hname hkey
      | spawning t sp sid ht hsp hname hkey =>
        rw [hworld] at ht
        rw [hhanded] at hkey
        exact .spawning t sp sid ht hsp hname hkey
      | mapped sid hm halive hkey =>
        rw [hworld] at hm halive
        rw [hhanded] at hkey
        exact .mapped sid hm halive hkey
    exact hkeys name key hold hne (h.keys name key hold hne)

/-- A key is issued under a name that uses none. -/
theorem Valid.issue (h : w.Valid) {i : Nat} {sp : Spawn} (raw : Option (List UInt8))
    (hsp : w.spawnAt i = some sp) (hfree : ∀ key, w.InUse sp.name key → key = []) :
    ({ w with hub := (w.hub.issueLoopbackKey sp.name raw).1,
              issued := w.issued.insert i (w.hub.issueLoopbackKey sp.name raw).2 } : Keyed).Valid := by
  have hothers : ∀ name key, name ≠ sp.name → w.hub.checkLoopbackKey name key = true →
      (w.hub.issueLoopbackKey sp.name raw).1.checkLoopbackKey name key = true := by
    intro name key hne hcheck
    cases raw <;>
      simpa only [ToolsHub.issueLoopbackKey, ToolsHub.checkLoopbackKey, ToolsHub.getElem?_insert_name,
        ToolsHub.getElem?_erase_name, if_neg hne.symm] using hcheck
  have hown : (w.hub.issueLoopbackKey sp.name raw).2 ≠ [] →
      (w.hub.issueLoopbackKey sp.name raw).1.checkLoopbackKey sp.name
        (w.hub.issueLoopbackKey sp.name raw).2 = true := by
    intro hne
    cases raw with
    | none => exact absurd rfl hne
    | some raw =>
      refine ToolsHub.checkLoopbackKey_hexEncode ?_
      simp only [ToolsHub.issueLoopbackKey, ToolsHub.getElem?_insert_name, if_true]
  generalize w.hub.issueLoopbackKey sp.name raw = keyed at hothers hown
  have huse : ∀ name key, w.InUse name key → key ≠ [] →
      keyed.1.checkLoopbackKey name key = true := by
    intro name key hold hne
    by_cases hname : name = sp.name
    · subst hname
      exact absurd (hfree key hold) hne
    · exact hothers name key hname (h.keys name key hold hne)
  refine ⟨h.base, h.length, fun j key hkey => ?_, fun name key hnew hne => ?_⟩
  · simp only [Std.TreeMap.getElem?_insert, Std.compare_eq_iff_eq] at hkey
    split at hkey
    · rename_i hij
      subst hij
      show (w.spawnAt i).isSome = true
      rw [hsp]
      rfl
    · exact h.issued j key hkey
  · cases hnew with
    | issued j sp' ht hname hkey =>
      simp only [Std.TreeMap.getElem?_insert, Std.compare_eq_iff_eq] at hkey
      split at hkey
      · rename_i hij
        subst hij
        obtain rfl := Option.some.inj hkey
        obtain rfl : sp = sp' := by
          have heq := (spawnAt_eq_some hsp).symm.trans ht
          cases heq
          rfl
        subst hname
        exact hown hne
      · exact huse name key (.issued j sp' ht hname hkey) hne
    | spawning t sp' sid ht hsp' hname hkey =>
      exact huse name key (.spawning t sp' sid ht hsp' hname hkey) hne
    | mapped sid hm halive hkey => exact huse name key (.mapped sid hm halive hkey) hne

/-- A section of the hub's housekeeping that removes no key in use. -/
theorem Valid.chore (h : w.Valid) {j : Nat} {s : HubStep} {rest : List HubStep}
    (hfree : ∀ name key, s.removesKey = some name → w.InUse name key → key = []) :
    ({ w with hub := (s.step w.hub w.sessionExists w.world.shared.now).1,
              chores := w.chores.set j ((s.step w.hub w.sessionExists w.world.shared.now).2 ++
                rest) } : Keyed).Valid := by
  refine h.hub rfl rfl rfl fun name key hold hne hcheck => ?_
  dsimp only
  cases hr : s.removesKey with
  | none =>
    rwa [ToolsHub.checkLoopbackKey, HubStep.keys_step w.hub w.sessionExists w.world.shared.now hr]
  | some removed =>
    have hname : removed ≠ name := by
      rintro rfl
      exact hne (hfree removed key hr hold)
    cases s <;> simp only [HubStep.removesKey, Option.some.injEq, reduceCtorEq] at hr
    case removeKey name' =>
      subst hr
      simpa only [HubStep.step, ToolsHub.removeKey, ToolsHub.checkLoopbackKey,
        ToolsHub.getElem?_erase_name, if_neg hname] using hcheck

/-- One step that meets the condition keeps the invariant. -/
theorem Valid.next (h : w.Valid) (hc : w.Spares l) (hs : w.next env l = some w') : w'.Valid := by
  cases l with
  | world l =>
    cases l with
    | call t => exact h.call hs
    | step i c => exact h.step hs
    | env d =>
      simp only [Keyed.next, handOver, Option.bind_some] at hs
      obtain ⟨world, hw, rfl⟩ := Option.map_eq_some_iff.mp hs
      have hbase := World.base_next h.base hw
      obtain rfl := Threads.next_env hw
      exact h.of_uses hbase h.length rfl (fun _ _ hkey => ⟨hkey, rfl⟩)
        (fun _ hu _ _ _ hsp hkey => .of_spawning hu hsp hkey)
        fun _ sid _ hm halive hkey => .mapped sid hm halive hkey
  | issueLoopbackKey i raw =>
    simp only [Keyed.next] at hs
    obtain ⟨sp, hsp, hs⟩ := Option.bind_eq_some_iff.mp hs
    split at hs
    · cases hs
    · cases hs
      exact h.issue raw hsp fun key huse => hc sp hsp key huse.mem
  | sweep =>
    cases hs
    exact h.hub rfl rfl rfl fun _ _ _ _ hcheck => hcheck
  | forgetKilled i =>
    simp only [Keyed.next] at hs
    split at hs
    · split at hs
      · cases hs
      · cases hs
        exact h.hub rfl rfl rfl fun _ _ _ _ hcheck => hcheck
    · cases hs
  | chore j =>
    simp only [Keyed.next] at hs
    obtain ⟨chore, hj, hs⟩ := Option.bind_eq_some_iff.mp hs
    cases chore with
    | nil => cases hs
    | cons s rest =>
      cases hs
      refine h.chore fun name key hr huse => hc name ?_ key huse.mem
      rw [hj]
      exact hr

/-- The keys of the live sessions work in every run that spares the keys in use. -/
theorem keysValid_of_spares (env : Env) (maxTtl : Duration) {ls : List Label}
    (hc : Trace.AllSteps (next env) Spares (init maxTtl) ls) :
    Trace.AllStates (next env) KeysValid (init maxTtl) ls :=
  (Trace.AllStates.of_invariant (fun _ _ _ h hc hs => h.next hc hs) (valid_init maxTtl) hc).imp
    fun _ h => h.keysValid

/-- `sh` is created with a key of 32 bytes `61`, and swept over while it is in the map. -/
theorem keysValid_swept :
    let ls : List Label := [.world (.call (.op (.adminCreate .sh .default))), .world (.step 0 {}),
      .world (.step 0 {}), .issueLoopbackKey 0 (some (List.replicate 32 97)), .world (.step 0 {}),
      .world (.step 0 {}), .world (.step 0 {}), .sweep, .chore 0, .chore 0, .chore 0, .chore 0,
      .chore 0, .chore 0]
    Trace.AllStates (next .default) KeysValid (init 60) ls ∧
      (Trace.run (next .default) (init 60) ls).map (·.hub.checkLoopbackKey .sh (hexEncode (List.replicate 32 97))) = some true :=
  ⟨keysValid_of_spares .default 60 (by decide), by decide⟩

/-- The same with the sweep before `publish`: it takes the key of a child that has just
started for one of a session that does not exist. -/
theorem not_keysValid_sweep :
    ¬ ∀ (env : Env) (maxTtl : Duration) (ls : List Label),
      Trace.AllStates (next env) KeysValid (init maxTtl) ls := by
  intro h
  obtain ⟨w, hP, hw⟩ := (h .default 60 [.world (.call (.op (.adminCreate .sh .default))),
    .world (.step 0 {}), .world (.step 0 {}), .issueLoopbackKey 0 (some (List.replicate 32 97)), .world (.step 0 {}),
    .sweep, .chore 0, .chore 0, .chore 0, .chore 0, .chore 0, .chore 0, .chore 0,
    .world (.step 0 {}), .world (.step 0 {})]).observe
    (f := fun w => (w.world.shared.sessions[SessionName.sh]?, w.world.shared.isAlive 0, w.handed,
      w.hub.checkLoopbackKey .sh (hexEncode (List.replicate 32 97))))
    (show _ = some (some 0, true, [hexEncode (List.replicate 32 97)], false) from by decide)
  simp only [Prod.mk.injEq] at hw
  obtain ⟨hm, halive, hhanded, hcheck⟩ := hw
  rw [hP .sh 0 _ hm halive (by rw [hhanded]; rfl) (by decide)] at hcheck
  cases hcheck

end Keyed

end OpenabPty
