import OpenabPty.Session
import OpenabPty.Token
import Std.Data.TreeMap.Lemmas
import Std.Data.TreeSet.Lemmas

/-!
# The session manager and its critical sections (`session.rs`)

`Shared` is everything the operations of the runtime share: the manager's maps, the sessions
that were ever spawned, the token store, the drain flag and the clock. A session is named by
its position in `heap`, which stands for the identity of its `Arc`; the heap only grows.
-/

namespace OpenabPty

/-- The identity of an `Arc<Session>`. -/
abbrev Sid := Nat

/-- The part of `PtyConfig` the manager reads. -/
structure PtyConfig where
  maxSessions : Nat
  scrollbackKib : Nat
  scrollbackReplay : Bool
  attachTokenTtl : Duration

/-- What a `SessionManager` is built with; `SessionManager::new` refuses a policy that does
not validate. -/
structure Env where
  config : PtyConfig
  policy : SessionPolicy
  policyValid : policy.validate = .ok ()
  tierBestEffort : Bool
  sha256 : List UInt8 → Digest

/-- The defaults of the config projection. -/
def PtyConfig.default : PtyConfig where
  maxSessions := 4
  scrollbackKib := 1024
  scrollbackReplay := false
  attachTokenTtl := .fromSecs (15 * 60)

/-- The runtime with its default configuration, the identity standing for SHA-256. -/
def Env.default : Env where
  config := .default
  policy := .default
  policyValid := by decide
  tierBestEffort := false
  sha256 := id

/-- The session name `sh`. -/
def SessionName.sh : SessionName := ⟨[115, 104], by decide⟩

/-- `Tombstone`. -/
structure Tombstone where
  generation : Generation
  cls : TerminationClass
  deriving DecidableEq, Repr

/-- What has happened so far. Nothing in the program reads it; statements about runs do.
The flag of `attached` and of `renewReturned` is whether the session was alive when the
attach or the renew returned `Ok`. -/
inductive Event where
  | minted (name : SessionName) (sid : Sid) (stored : StoredAttachToken)
  | published (name : SessionName) (sid : Sid) (generation : Generation)
  | renewed (name : SessionName) (sid : Sid) (generation : Generation)
  | attached (sid : Sid) (alive : Bool)
  | renewReturned (sid : Sid) (alive : Bool)
  | cleared (sid : Sid)
  deriving DecidableEq

/-- The shared state of the runtime. `sessions`, `claimed` and `tombstones` are
`ManagerState`; `history` is newest first. -/
structure Shared where
  now : Instant
  sessions : Std.TreeMap SessionName Sid
  claimed : Std.TreeSet SessionName
  tombstones : List (SessionName × Tombstone)
  heap : List Session
  tokens : TokenEntries
  draining : Bool
  history : List Event

/-- `MAX_TOMBSTONES`. -/
def maxTombstones : Nat := 32

namespace Shared

def init : Shared :=
  { now := 0, sessions := ∅, claimed := ∅, tombstones := [], heap := [], tokens := ∅,
    draining := false, history := [] }

/-- Change one session. -/
def modify (sh : Shared) (sid : Sid) (f : Session → Session) : Shared :=
  { sh with heap := sh.heap.modify sid f }

/-- Note an event in the history. -/
def note (sh : Shared) (e : Event) : Shared := { sh with history := e :: sh.history }

/-- `Session::is_alive`, the atomic. -/
def isAlive (sh : Shared) (sid : Sid) : Bool := sh.heap[sid]?.any (·.io.alive)

/-- `sessions.values()`, cloned. -/
def sessionValues (sh : Shared) : List Sid := sh.sessions.toList.map (·.2)

/-- The live sessions `claim_name` counts. -/
def liveSessions (sh : Shared) : Nat :=
  (sh.sessions.toList.filter fun entry => sh.isAlive entry.2).length

/-- `claim_name`. -/
def claimName (sh : Shared) (maxSessions : Nat) (name : SessionName) :
    Shared × Except Error Unit :=
  if sh.sessions.contains name || sh.claimed.contains name then (sh, .error (.alreadyExists name))
  else
    let claimed := sh.claimed.insert name
    let live := sh.liveSessions + claimed.size
    if live > maxSessions then
      ({ sh with claimed := claimed.erase name }, .error (.capacityExceeded maxSessions))
    else ({ sh with claimed := claimed }, .ok ())

/-- `NameClaim::drop`. -/
def dropClaim (sh : Shared) (name : SessionName) : Shared :=
  { sh with claimed := sh.claimed.erase name }

/-- The critical section of `publish`: the session it displaced. -/
def publish (sh : Shared) (name : SessionName) (sid : Sid) : Shared × Option Sid :=
  ({ sh with claimed := sh.claimed.erase name, sessions := sh.sessions.insert name sid },
   sh.sessions[name]?)

/-- `forget`. -/
def forget (sh : Shared) (name : SessionName) : Shared :=
  { sh with sessions := sh.sessions.erase name }

/-- `remember_dead`. -/
def rememberDead (sh : Shared) (name : SessionName) (generation : Generation)
    (cls : TerminationClass) : Shared :=
  let tombstones := sh.tombstones ++ [(name, { generation := generation, cls := cls })]
  { sh with tombstones := tombstones.drop (tombstones.length - maxTombstones) }

/-- `peek_tombstone`. -/
def peekTombstone (sh : Shared) (name : SessionName) : Option TerminationClass :=
  (sh.tombstones.reverse.find? (·.1 = name)).map (·.2.cls)

/-- `take_tombstone`: the newest tombstone of the name is removed. -/
def takeTombstone (sh : Shared) (name : SessionName) : Shared × Option Tombstone :=
  match sh.tombstones.reverse.find? (·.1 = name) with
  | none => (sh, none)
  | some dead =>
    ({ sh with tombstones := (sh.tombstones.reverse.eraseP (·.1 = name)).reverse }, some dead.2)

/-- `AttachVerifier::verify`. -/
def verifyToken (sh : Shared) (env : Env) (name : SessionName) (generation : Generation)
    (presented : List UInt8) : Shared × Except Error AttachGrant :=
  let verified := sh.tokens.verify env.sha256 name generation presented sh.now
  ({ sh with tokens := verified.1 }, verified.2)

/-- The session object that `spawn_claimed` makes, on the heap but not in the map. -/
def allocate (sh : Shared) (env : Env) (name : SessionName) (generation : Generation)
    (size : WindowSize) : Shared × Sid :=
  ({ sh with heap := sh.heap ++ [Session.new name generation size sh.now env.config.scrollbackKib
      env.tierBestEffort env.policy] }, sh.heap.length)

/-- The lifecycle of a session of the heap. -/
def life? (sh : Shared) (sid : Sid) : Option Session.Life := sh.heap[sid]?.map Session.life

/-- The fence of a session of the heap. -/
def fence? (sh : Shared) (sid : Sid) : Option Session.Fence := sh.heap[sid]?.map Session.fence

/-- The scrollback of a session of the heap. -/
def buffer? (sh : Shared) (sid : Sid) : Option RingBuffer := sh.heap[sid]?.map (·.io.buffer)

/-- The name of a session of the heap. -/
def name? (sh : Shared) (sid : Sid) : Option SessionName := sh.heap[sid]?.map (·.name)

/-- The session was put into the map at some time. -/
def published (sh : Shared) (sid : Sid) : Bool :=
  sh.history.any fun
    | .published _ t _ => t = sid
    | _ => false

/-! ## What a change of one session touches -/

section Modify

variable (sh : Shared) (sid t : Sid) (f : Session → Session)

@[simp] theorem modify_now : (sh.modify sid f).now = sh.now := rfl
@[simp] theorem modify_sessions : (sh.modify sid f).sessions = sh.sessions := rfl
@[simp] theorem modify_claimed : (sh.modify sid f).claimed = sh.claimed := rfl
@[simp] theorem modify_tombstones : (sh.modify sid f).tombstones = sh.tombstones := rfl
@[simp] theorem modify_tokens : (sh.modify sid f).tokens = sh.tokens := rfl
@[simp] theorem modify_history : (sh.modify sid f).history = sh.history := rfl
@[simp] theorem modify_heap_length : (sh.modify sid f).heap.length = sh.heap.length := by
  simp [modify]

theorem heap_modify : (sh.modify sid f).heap[t]? =
    if sid = t then sh.heap[t]?.map f else sh.heap[t]? := by
  simp only [modify, List.getElem?_modify]
  split <;> simp_all

theorem life_modify (t : Sid) : (sh.modify sid f).life? t =
    if sid = t then sh.heap[t]?.map (fun s => (f s).life) else sh.life? t := by
  simp only [life?, heap_modify]
  split
  · cases sh.heap[t]? <;> rfl
  · rfl

theorem fence_modify (t : Sid) : (sh.modify sid f).fence? t =
    if sid = t then sh.heap[t]?.map (fun s => (f s).fence) else sh.fence? t := by
  simp only [fence?, heap_modify]
  split
  · cases sh.heap[t]? <;> rfl
  · rfl

theorem buffer_modify (t : Sid) : (sh.modify sid f).buffer? t =
    if sid = t then sh.heap[t]?.map (fun s => (f s).io.buffer) else sh.buffer? t := by
  simp only [buffer?, heap_modify]
  split
  · cases sh.heap[t]? <;> rfl
  · rfl

variable {f}

/-- A change that keeps every lifecycle keeps them on the heap. -/
theorem life_modify_of_eq (h : ∀ s : Session, (f s).life = s.life) (t : Sid) :
    (sh.modify sid f).life? t = sh.life? t := by
  rw [life_modify]
  split
  · simp [life?, h]
  · rfl

/-- A change that keeps every fence keeps them on the heap. -/
theorem fence_modify_of_eq (h : ∀ s : Session, (f s).fence = s.fence) (t : Sid) :
    (sh.modify sid f).fence? t = sh.fence? t := by
  rw [fence_modify]
  split
  · simp [fence?, h]
  · rfl

/-- A change that keeps every buffer keeps them on the heap. -/
theorem buffer_modify_of_eq (h : ∀ s : Session, (f s).io.buffer = s.io.buffer) (t : Sid) :
    (sh.modify sid f).buffer? t = sh.buffer? t := by
  rw [buffer_modify]
  split
  · simp [buffer?, h]
  · rfl

end Modify

theorem name?_eq_life (sh : Shared) (sid : Sid) :
    sh.name? sid = (sh.life? sid).map (·.name) := by
  simp only [name?, life?]
  cases sh.heap[sid]? <;> rfl

theorem lt_of_life? {sh : Shared} {sid : Sid} {life : Session.Life}
    (h : sh.life? sid = some life) : sid < sh.heap.length := by
  obtain ⟨s, hs, -⟩ := Option.map_eq_some_iff.mp h
  exact (List.getElem?_eq_some_iff.mp hs).1

theorem isAlive_eq_life (sh : Shared) (sid : Sid) :
    sh.isAlive sid = (sh.life? sid).any (·.ioAlive) := by
  simp only [isAlive, life?]
  cases sh.heap[sid]? <;> rfl

/-- The heap after an allocation: one fresh session at the end. -/
theorem heap_allocate (sh : Shared) (env : Env) (name : SessionName) (generation : Generation)
    (size : WindowSize) (t : Sid) :
    (sh.allocate env name generation size).1.heap[t]? =
      if t = sh.heap.length then
        some (Session.new name generation size sh.now env.config.scrollbackKib
          env.tierBestEffort env.policy)
      else sh.heap[t]? := by
  simp only [allocate]
  rcases Nat.lt_trichotomy t sh.heap.length with h | rfl | h
  · rw [List.getElem?_append_left h, if_neg (Nat.ne_of_lt h)]
  · simp
  · rw [if_neg (Nat.ne_of_gt h), List.getElem?_eq_none (by simp; omega),
      List.getElem?_eq_none (Nat.le_of_lt h)]

theorem life_allocate (sh : Shared) (env : Env) (name : SessionName) (generation : Generation)
    (size : WindowSize) (t : Sid) :
    (sh.allocate env name generation size).1.life? t =
      if t = sh.heap.length then
        some { name := name, generation := generation, alive := true, ioAlive := true }
      else sh.life? t := by
  simp only [life?, heap_allocate]
  split <;> rfl

/-- Taking a tombstone finds none, or removes the newest one of the name. -/
theorem takeTombstone_cases (sh : Shared) (name : SessionName) :
    sh.takeTombstone name = (sh, none) ∨
    ∃ dead, (name, dead) ∈ sh.tombstones ∧ sh.takeTombstone name =
      ({ sh with tombstones := (sh.tombstones.reverse.eraseP (·.1 = name)).reverse },
        some dead) := by
  unfold takeTombstone
  split
  · exact .inl rfl
  · rename_i found hfound
    obtain ⟨n, dead⟩ := found
    obtain rfl : n = name := by simpa using List.find?_some hfound
    exact .inr ⟨dead, List.mem_reverse.mp (List.mem_of_find?_eq_some hfound), rfl⟩

/-- A claim that is given back leaves the claims as they were. -/
theorem claimed_dropClaim {claimed : Std.TreeSet SessionName} {name : SessionName}
    (hfree : claimed.contains name = false) :
    (∀ n, ((claimed.insert name).erase name).contains n = claimed.contains n) ∧
      ((claimed.insert name).erase name).size = claimed.size := by
  constructor
  · intro n
    rw [Std.TreeSet.contains_erase, Std.TreeSet.contains_insert]
    by_cases hn : name = n
    · subst hn
      rw [hfree, Std.ReflOrd.compare_self]
      rfl
    · have hne : (compare name n == .eq) = false := by
        rw [beq_eq_false_iff_ne]
        exact fun h => hn (Std.LawfulEqOrd.eq_of_compare h)
      rw [hne, bne, hne]
      rfl
  · simp [Std.TreeSet.size_erase, Std.TreeSet.size_insert, hfree]

/-- A claim that fails leaves the shared state alone, up to how the claim set is laid out. -/
theorem claimName_cases (sh : Shared) (maxSessions : Nat) (name : SessionName) :
    (∃ claimed error, sh.claimName maxSessions name =
        ({ sh with claimed := claimed }, .error error) ∧
      (∀ n, claimed.contains n = sh.claimed.contains n) ∧ claimed.size = sh.claimed.size) ∨
    (sh.claimName maxSessions name = ({ sh with claimed := sh.claimed.insert name }, .ok ()) ∧
      sh.sessions[name]? = none ∧ sh.claimed.contains name = false ∧
      sh.liveSessions + (sh.claimed.insert name).size ≤ maxSessions) := by
  unfold claimName
  by_cases hexists : (sh.sessions.contains name || sh.claimed.contains name) = true
  · rw [if_pos hexists]
    exact .inl ⟨sh.claimed, _, rfl, fun _ => rfl, rfl⟩
  · rw [if_neg hexists]
    simp only [Bool.or_eq_true, not_or, Bool.not_eq_true] at hexists
    dsimp only
    split
    · obtain ⟨hcontains, hsize⟩ := claimed_dropClaim hexists.2
      exact .inl ⟨_, _, rfl, hcontains, hsize⟩
    · rename_i hlive
      refine .inr ⟨rfl, ?_, hexists.2, Nat.not_lt.mp hlive⟩
      have hnone := hexists.1
      rw [Std.TreeMap.contains_eq_isSome_getElem?] at hnone
      exact Option.isNone_iff_eq_none.mp (Option.isSome_eq_false_iff.mp hnone)

end Shared

end OpenabPty
