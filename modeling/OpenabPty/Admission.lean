import OpenabPty.Sections

/-!
# Admission: one spawn per name, and a bounded number of sessions

`claim_name` admits a spawn only for a name that is neither in the map nor claimed, and counts
the claims against `max_sessions`. The claim is released in `publish` and once more when the
guard is dropped at the end of `spawn_session`; the second release takes away whatever claim
the name has by then.
-/

namespace OpenabPty

/-- The name an operation has claimed: from `claim_name` to `publish`, or to the drop of the
guard when the spawn failed. -/
def Op.inFlight : Op → Option SessionName
  | .spawn sp => some sp.name
  | .mint sp _ => some sp.name
  | .publish sp _ _ => some sp.name
  | .dropClaim name (.error _) => some name
  | _ => none

def Task.inFlight : Task → Option SessionName := Task.onOp Op.inFlight

/-- Admission is exclusive and bounded: a name in flight is in flight once and not in the map,
so `publish` displaces nothing, and the live sessions of the map and the spawns in flight are
at most `max_sessions`. -/
structure World.Admitted (env : Env) (w : World) : Prop where
  once : Threads.Exclusive Task.inFlight w.tasks
  notMapped : ∀ t ∈ w.tasks, ∀ name, t.inFlight = some name → w.shared.sessions[name]? = none
  displaces : ∀ sp sid token, Task.op (.publish sp sid token) ∈ w.tasks →
    (w.shared.publish sp.name sid).2 = none
  bounded : w.shared.liveSessions + (w.tasks.filterMap Task.inFlight).length ≤
    env.config.maxSessions

/-- The name whose claim the guard of a published spawn is about to release once more. -/
def Op.dropping : Op → Option SessionName
  | .dropClaim name reply => if inFlight (.dropClaim name reply) = none then some name else none
  | _ => none

/-- The guard of a published spawn is not dropped while another spawn of the name is in
flight. -/
def World.DropsOwnClaim (w : World) (l : World.Label) : Prop :=
  ∀ name ∈ (w.acting l).bind (Task.onOp Op.dropping), ∀ t ∈ w.tasks, t.inFlight ≠ some name

instance (w : World) (l : World.Label) : Decidable (w.DropsOwnClaim l) :=
  inferInstanceAs (Decidable (∀ name ∈ (w.acting l).bind (Task.onOp Op.dropping), _))

/-- A name is put in flight by a claim only. -/
theorem Op.inFlight_step {env : Env} {sh sh' : Shared} {c : Choice} {op op' : Op} {ops : List Op}
    {sids : List Sid} (h : op.step env sh c = some (sh', op', ops, sids)) :
    (∀ o ∈ ops, o.inFlight = none) ∧
    ∀ name, op'.inFlight = some name →
      op.inFlight = some name ∨ ∃ sp, op = .claimName sp ∧ name = sp.name ∧
        (sh.claimName env.config.maxSessions sp.name).2 = .ok () := by
  obtain ⟨hgo, hops⟩ := flow_step h
  clear h
  refine ⟨fun o ho => ?_, fun name hname => ?_⟩
  · obtain ⟨n, old, -, rfl⟩ := hops o ho
    rfl
  cases hgo with
  | claimed sp hclaim =>
    cases hname
    exact .inr ⟨sp, rfl, rfl, hclaim⟩
  | spawnFailed | spawned | mintFailed | minted => exact .inl hname
  | _ => cases hname

namespace Shared

/-- The live sessions are bounded by the live sessions of before and what was added. -/
theorem liveSessions_le {sh sh' : Shared} (extra : List (SessionName × Sid))
    (h : ∀ name sid, sh'.sessions[name]? = some sid → sh'.isAlive sid = true →
      (name, sid) ∈ extra ∨ sh.sessions[name]? = some sid ∧ sh.isAlive sid = true) :
    sh'.liveSessions ≤ extra.length + sh.liveSessions := by
  have hnodup : sh'.sessions.toList.Nodup :=
    Std.TreeMap.distinct_keys_toList.imp fun hne heq => by
      rw [heq] at hne
      exact hne Std.ReflOrd.compare_self
  have hsub : (sh'.sessions.toList.filter fun entry => sh'.isAlive entry.2) ⊆
      extra ++ sh.sessions.toList.filter fun entry => sh.isAlive entry.2 := by
    rintro ⟨name, sid⟩ hmem
    obtain ⟨hmem, ha⟩ := List.mem_filter.mp hmem
    rcases h name sid (Std.TreeMap.mem_toList_iff_getElem?_eq_some.mp hmem) ha with hnew | ⟨hm, ha⟩
    · exact List.mem_append_left _ hnew
    · exact List.mem_append_right _
        (List.mem_filter.mpr ⟨Std.TreeMap.mem_toList_iff_getElem?_eq_some.mpr hm, ha⟩)
  have hle := (hnodup.filter _).length_le_of_subset hsub
  rwa [List.length_append] at hle

/-- What the claims bound: the live sessions of the map and the claimed names. -/
structure WithinCapacity (limit : Nat) (sh : Shared) : Prop where
  mapped : ∀ (name : SessionName) sid, sh.sessions[name]? = some sid → sid < sh.heap.length
  bounded : sh.liveSessions + sh.claimed.size ≤ limit

/-- A spawn in flight holds the claim of its name, and the map does not have the name. -/
structure Claimed (sh : Shared) (t : Task) : Prop where
  claim : ∀ name, t.inFlight = some name →
    sh.claimed.contains name = true ∧ sh.sessions[name]? = none
  session : ∀ sp sid, t.spawning = some (sp, sid) → sid < sh.heap.length

variable {limit : Nat} {sh sh' : Shared} {t : Task}

/-- Sessions may die while the map and the claims stay. -/
theorem WithinCapacity.keep (h : sh.WithinCapacity limit) (hk : sh.KeepsMap sh')
    (hsize : sh'.claimed.size = sh.claimed.size) : sh'.WithinCapacity limit := by
  refine ⟨fun name sid hm => ?_, ?_⟩
  · rw [hk.length]
    exact h.mapped name sid (hk.sessions ▸ hm)
  · have hlive : sh'.liveSessions ≤ ([] : List (SessionName × Sid)).length + sh.liveSessions :=
      liveSessions_le [] fun name sid hm ha => .inr ⟨hk.sessions ▸ hm, hk.alive sid ha⟩
    have hle := h.bounded
    simp only [List.length_nil, Nat.zero_add] at hlive
    omega

theorem Claimed.keep (h : sh.Claimed t) (hk : sh.KeepsMap sh')
    (hclaimed : ∀ name, sh'.claimed.contains name = sh.claimed.contains name) :
    sh'.Claimed t := by
  refine ⟨fun name ht => ?_, fun sp sid ht => ?_⟩
  · rw [hclaimed, hk.sessions]
    exact h.claim name ht
  · rw [hk.length]
    exact h.session sp sid ht

/-- A claim survives the release of another one. -/
theorem contains_erase_of_ne {claimed : Std.TreeSet SessionName} {name other : SessionName}
    (h : claimed.contains name = true) (hne : other ≠ name) :
    (claimed.erase other).contains name = true := by
  rw [Std.TreeSet.contains_erase, h, Bool.and_true, bne_iff_ne]
  exact fun heq => hne (Std.LawfulEqOrd.eq_of_compare heq)

/-- A claim outlives a removal from the map. -/
theorem Claimed.forget (h : sh.Claimed t) (name : SessionName) : (sh.forget name).Claimed t := by
  refine ⟨fun other ht => ?_, h.session⟩
  obtain ⟨hcl, hm⟩ := h.claim other ht
  refine ⟨hcl, ?_⟩
  rw [sessions_forget, hm]
  split <;> rfl

theorem WithinCapacity.allocate (h : sh.WithinCapacity limit) (env : Env) (name : SessionName)
    (generation : Generation) (size : WindowSize) :
    (sh.allocate env name generation size).1.WithinCapacity limit := by
  have hlen : (sh.allocate env name generation size).1.heap.length = sh.heap.length + 1 := by
    simp [Shared.allocate]
  refine ⟨fun n sid hm => ?_, ?_⟩
  · rw [hlen]
    exact Nat.lt_succ_of_lt (h.mapped n sid hm)
  · have hlive : (sh.allocate env name generation size).1.liveSessions ≤
        ([] : List (SessionName × Sid)).length + sh.liveSessions := by
      refine liveSessions_le [] fun n sid hm ha => .inr ⟨hm, ?_⟩
      rwa [isAlive, heap_allocate, if_neg (Nat.ne_of_lt (h.mapped n sid hm))] at ha
    have hle := h.bounded
    simp only [List.length_nil, Nat.zero_add] at hlive
    show _ + sh.claimed.size ≤ limit
    omega

theorem WithinCapacity.forget (h : sh.WithinCapacity limit) (name : SessionName) :
    (sh.forget name).WithinCapacity limit := by
  have hold : ∀ (n : SessionName) sid, (sh.forget name).sessions[n]? = some sid → sh.sessions[n]? = some sid := by
    intro n sid hm
    rw [sessions_forget] at hm
    split at hm
    · cases hm
    · exact hm
  refine ⟨fun n sid hm => h.mapped n sid (hold n sid hm), ?_⟩
  have hlive : (sh.forget name).liveSessions ≤
      ([] : List (SessionName × Sid)).length + sh.liveSessions :=
    liveSessions_le [] fun n sid hm ha => .inr ⟨hold n sid hm, ha⟩
  have hle := h.bounded
  simp only [List.length_nil, Nat.zero_add] at hlive
  show _ + sh.claimed.size ≤ limit
  omega

/-- `publish` turns the claim of its name into at most one live session. -/
theorem WithinCapacity.publish (h : sh.WithinCapacity limit) {sp : Spawn} {sid : Sid}
    (hclaim : sh.claimed.contains sp.name = true) (hsid : sid < sh.heap.length) :
    (sh.publishNoted sp sid).WithinCapacity limit := by
  refine ⟨fun n t hm => ?_, ?_⟩
  · rw [sessions_publishNoted] at hm
    split at hm
    · obtain rfl := Option.some.inj hm
      exact hsid
    · exact h.mapped n t hm
  · have hlive : (sh.publishNoted sp sid).liveSessions ≤ [(sp.name, sid)].length + sh.liveSessions := by
      refine liveSessions_le _ fun n t hm ha => ?_
      rw [sessions_publishNoted] at hm
      split at hm
      · rename_i hn
        obtain rfl := Option.some.inj hm
        exact .inl (List.mem_singleton.mpr (by rw [hn]))
      · exact .inr ⟨hm, ha⟩
    have hsize : (sh.publishNoted sp sid).claimed.size = sh.claimed.size - 1 := by
      show (sh.claimed.erase sp.name).size = _
      rw [Std.TreeSet.size_erase, if_pos hclaim]
    have hpos : 0 < sh.claimed.size := by
      rw [Nat.pos_iff_ne_zero]
      intro h0
      have hne := Std.TreeSet.isEmpty_eq_false_of_contains hclaim
      rw [Std.TreeSet.isEmpty_eq_size_eq_zero, h0] at hne
      cases hne
    have hle := h.bounded
    simp only [List.length_singleton] at hlive
    omega

end Shared

/-- The claims change in `claim_name`, in `publish` and in the drop of the guard only. -/
theorem Op.step_claimed {env : Env} {sh sh' : Shared} {c : Choice} {op op' : Op} {ops : List Op}
    {sids : List Sid} (h : op.step env sh c = some (sh', op', ops, sids))
    (hclaim : ∀ sp, op ≠ .claimName sp) (hpublish : ∀ sp sid token, op ≠ .publish sp sid token)
    (hdrop : ∀ name reply, op ≠ .dropClaim name reply) : sh'.claimed = sh.claimed := by
  by_cases hq : op.quiet = true
  · exact (step_quiet hq h).1.claimed
  cases op <;> simp only [quiet, not_true_eq_false] at hq <;> simp only [step] at h
  case claimName sp => exact absurd rfl (hclaim sp)
  case publish sp sid token => exact absurd rfl (hpublish sp sid token)
  case dropClaim name reply => exact absurd rfl (hdrop name reply)
  case spawn | mint | renewMint => split at h <;> cases h <;> rfl
  case restartForget | forget | teardownRevoke | teardownClear | rememberDead | beginDrain =>
    cases h
    rfl
  case restartTombstone name =>
    rcases sh.takeTombstone_cases name with heq | ⟨dead, -, heq⟩ <;> rw [heq] at h <;> cases h <;>
      rfl
  case teardownLock | renewLock =>
    obtain ⟨s, -, heq⟩ := Option.map_eq_some_iff.mp h
    cases heq
    rfl
  case returned => cases h

/-! ## Runs -/

section Step

variable {env : Env} {sh sh' : Shared} {t t' : Task} {c : Input} {new : List Task}

/-- A name is put in flight by a claim only. -/
theorem Task.inFlight_step (h : Task.step env sh t c = some (sh', t', new)) :
    (∀ u ∈ new, u.inFlight = none) ∧
    ∀ name, t'.inFlight = some name →
      t.inFlight = some name ∨ ∃ sp, t = .op (.claimName sp) ∧ name = sp.name ∧
        (sh.claimName env.config.maxSessions sp.name).2 = .ok () := by
  refine onOp_step h (fun _ => rfl) fun op op' ops sids ht hop => ?_
  obtain ⟨hops, hop'⟩ := Op.inFlight_step hop
  subst ht
  refine ⟨hops, fun name hname => ?_⟩
  rcases hop' name hname with hkeep | ⟨sp, rfl, hclaim⟩
  · exact .inl hkeep
  · exact .inr ⟨sp, rfl, hclaim⟩

/-- No request has a name in flight already. -/
theorem Task.inFlight_entry (h : t.entry = true) : t.inFlight = none := by
  cases t with
  | op o => cases o <;> first | rfl | cases h
  | conn o => rfl
  | pump o => rfl

open Shared in
/-- One step of a task; the guard of a published spawn finds no other spawn of its name. -/
theorem Task.step_claimed (h : Task.step env sh t c = some (sh', t', new))
    (hI : sh.WithinCapacity env.config.maxSessions) (hA : sh.Claimed t) :
    sh'.WithinCapacity env.config.maxSessions ∧ sh'.Claimed t' ∧
    ∀ u, sh.Claimed u → (∀ k, t.inFlight = some k → u.inFlight ≠ some k) →
      (∀ name, t.onOp Op.dropping = some name → u.inFlight ≠ some name) → sh'.Claimed u := by
  obtain ⟨-, hspawning⟩ := spawning_step h
  obtain ⟨-, hinFlight⟩ := inFlight_step h
  -- Most steps keep the map and the claims; a task in flight goes on holding its claim.
  have hkeep : sh.KeepsMap sh' → (∀ name, sh'.claimed.contains name = sh.claimed.contains name) →
      sh'.claimed.size = sh.claimed.size → (∀ sp, t ≠ .op (.spawn sp)) →
      (∀ name, t'.inFlight = some name → t.inFlight = some name) →
      sh'.WithinCapacity env.config.maxSessions ∧ sh'.Claimed t' ∧
      ∀ u, sh.Claimed u → (∀ k, t.inFlight = some k → u.inFlight ≠ some k) →
        (∀ name, t.onOp Op.dropping = some name → u.inFlight ≠ some name) → sh'.Claimed u := by
    intro hk hclaimed hsize hspawn hsame
    refine ⟨hI.keep hk hsize, ⟨fun name hname => ?_, fun sp sid hs => ?_⟩,
      fun u hu _ _ => hu.keep hk hclaimed⟩
    · exact (hA.keep hk hclaimed).claim name (hsame name hname)
    · rcases hspawning (sp, sid) hs with hs | ⟨ht, -⟩
      · exact (hA.keep hk hclaimed).session sp sid hs
      · exact absurd ht (hspawn sp)
  rcases step_cases h with ⟨op, op', ops, sids, rfl, hop, rfl, rfl⟩ |
    ⟨conn, conn', rfl, hconn, rfl, rfl⟩ | ⟨pump, rfl, hpump, rfl⟩
  · cases op
    case claimName sp =>
      simp only [Op.step] at hop
      rcases sh.claimName_cases env.config.maxSessions sp.name with
        ⟨claimed, error, heq, hcontains, hsize⟩ | ⟨heq, hmap, hfresh, hroom⟩ <;>
        rw [heq] at hop <;> cases hop
      · exact hkeep (keepsMap_of_eq rfl rfl fun _ => rfl) hcontains hsize (by rintro _ ⟨⟩) (by rintro _ ⟨⟩)
      · refine ⟨⟨hI.mapped, hroom⟩, ⟨fun name hname => ?_, by rintro _ _ ⟨⟩⟩,
          fun u hu _ _ => ⟨fun name hname => ?_, hu.session⟩⟩
        · obtain rfl : sp.name = name := Option.some.inj hname
          exact ⟨Std.TreeSet.contains_insert_self, hmap⟩
        · obtain ⟨hcl, hm⟩ := hu.claim name hname
          refine ⟨?_, hm⟩
          rw [Std.TreeSet.contains_insert, hcl, Bool.or_true]
    case spawn sp =>
      simp only [Op.step] at hop
      split at hop <;> cases hop
      · exact ⟨hI, ⟨fun name hname => hA.claim name hname, by rintro _ _ ⟨⟩⟩,
          fun u hu _ _ => hu⟩
      · have hlen : (sh.allocate env sp.name sp.generation sp.size).1.heap.length =
            sh.heap.length + 1 := by simp [allocate]
        refine ⟨hI.allocate env _ _ _, ⟨fun name hname => hA.claim name hname, fun sp' sid hs => ?_⟩,
          fun u hu _ _ => ⟨hu.claim, fun sp' sid hs => ?_⟩⟩
        · obtain ⟨rfl, rfl⟩ := Prod.mk.inj (Option.some.inj hs)
          rw [hlen]
          exact Nat.lt_succ_self _
        · rw [hlen]
          exact Nat.lt_succ_of_lt (hu.session sp' sid hs)
    case publish sp sid token =>
      simp only [Op.step] at hop
      cases hop
      obtain ⟨hcl, -⟩ := hA.claim sp.name rfl
      refine ⟨hI.publish hcl (hA.session sp sid rfl),
        ⟨by rintro _ ⟨⟩, by rintro _ _ ⟨⟩⟩,
        fun u hu hne _ => ⟨fun name hname => ?_, hu.session⟩⟩
      have hother : sp.name ≠ name := by
        rintro rfl
        exact hne sp.name rfl hname
      obtain ⟨hcl', hm⟩ := hu.claim name hname
      exact ⟨contains_erase_of_ne hcl' hother, by rw [← hm]; exact
        (sh.sessions_publishNoted sp sid name).trans (if_neg hother)⟩
    case dropClaim name reply =>
      simp only [Op.step] at hop
      cases hop
      have hsize : (sh.claimed.erase name).size ≤ sh.claimed.size := Std.TreeSet.size_erase_le
      refine ⟨⟨hI.mapped, Nat.le_trans (Nat.add_le_add_left hsize _) hI.bounded⟩,
        ⟨by rintro _ ⟨⟩, by rintro _ _ ⟨⟩⟩,
        fun u hu hne hdrop => ⟨fun name' hname => ?_, hu.session⟩⟩
      have hother : name ≠ name' := by
        rintro rfl
        cases hown : Op.inFlight (.dropClaim name reply) with
        | none => exact hdrop name (if_pos hown) hname
        | some k =>
          obtain rfl : k = name := by cases reply <;> cases hown; rfl
          exact hne k hown hname
      obtain ⟨hcl, hm⟩ := hu.claim name' hname
      exact ⟨contains_erase_of_ne hcl hother, hm⟩
    case restartForget name base =>
      simp only [Op.step] at hop
      cases hop
      refine ⟨hI.forget name, ⟨by rintro _ ⟨⟩, by rintro _ _ ⟨⟩⟩,
        fun u hu _ _ => hu.forget name⟩
    case forget td report =>
      simp only [Op.step] at hop
      cases hop
      refine ⟨hI.forget td.name, ⟨fun name hname => ?_, fun sp sid hs => ?_⟩,
        fun u hu _ _ => hu.forget td.name⟩
      · rcases hinFlight name hname with hsame | ⟨sp, ht, -⟩
        · cases hsame
        · cases ht
      · rcases hspawning (sp, sid) hs with hsame | ⟨ht, -⟩
        · cases hsame
        · cases ht
    all_goals
      refine hkeep (Op.step_keepsMap hop rfl (by rintro _ ⟨⟩))
        (fun _ => by rw [Op.step_claimed hop (by rintro _ ⟨⟩) (by rintro _ _ _ ⟨⟩) (by rintro _ _ ⟨⟩)])
        (by rw [Op.step_claimed hop (by rintro _ ⟨⟩) (by rintro _ _ _ ⟨⟩) (by rintro _ _ ⟨⟩)]) (by rintro _ ⟨⟩) fun name hname => ?_
      rcases hinFlight name hname with hsame | ⟨sp, ht, -⟩
      · exact hsame
      · cases ht
  · have hs := Conn.step_steady hconn
    refine hkeep hs.keepsMap (fun _ => by rw [hs.claimed]) (by rw [hs.claimed])
      (by rintro _ ⟨⟩) (by rintro _ ⟨⟩)
  · have hs := Pump.step_steady hpump
    refine hkeep hs.keepsMap (fun _ => by rw [hs.claimed]) (by rw [hs.claimed])
      (by rintro _ ⟨⟩) fun name hname => ?_
    rcases hinFlight name hname with hsame | ⟨sp, ht, -⟩
    · exact hsame
    · cases ht

end Step

/-- The invariant of the claims along a run. -/
abbrev World.ClaimsHold (env : Env) (w : World) : Prop :=
  Threads.Annotated (Shared.WithinCapacity env.config.maxSessions) Shared.Claimed Task.inFlight w

variable {env : Env} {w w' : World} {l : World.Label}

theorem World.claimsHold_init (env : Env) : World.init.ClaimsHold env := by
  refine Threads.Annotated.initial ⟨fun name sid hm => ?_, Nat.zero_le _⟩
  simp [Shared.init] at hm

theorem World.claimsHold_next (hI : w.ClaimsHold env) (hdrop : w.DropsOwnClaim l)
    (h : World.next env w l = some w') : w'.ClaimsHold env := by
  refine hI.preserved (fun s k => s.claimed.contains k = false) h (fun t _ he => ?_)
    (fun i c t s' t' new hl ht hs hA => ?_) (fun u k hu hfresh huk => ?_)
    fun e _ => ⟨⟨hI.shared.mapped, hI.shared.bounded⟩, fun u _ hu => ⟨hu.claim, hu.session⟩⟩
  · refine ⟨⟨fun name hname => ?_, fun sp sid hs => ?_⟩, Task.inFlight_entry he⟩
    · rw [Task.inFlight_entry he] at hname
      cases hname
    · rw [Task.spawning_entry he] at hs
      cases hs
  · obtain ⟨hI', hA', hothers⟩ := Task.step_claimed hs hI.shared hA
    obtain ⟨hnew, hinFlight⟩ := Task.inFlight_step hs
    obtain ⟨hnew', -⟩ := Task.spawning_step hs
    refine ⟨hI', hA', fun u hu => ⟨⟨fun name hname => ?_, fun sp sid hus => ?_⟩, hnew u hu⟩,
      fun k hk => ?_, fun u hu hAu hne => hothers u hAu hne fun name hdropping => ?_⟩
    · rw [hnew u hu] at hname
      cases hname
    · rw [hnew' u hu] at hus
      cases hus
    · rcases hinFlight k hk with hsame | ⟨sp, rfl, rfl, hok⟩
      · exact .inl hsame
      · rcases w.shared.claimName_cases env.config.maxSessions sp.name with
          ⟨claimed, error, heq, -⟩ | ⟨-, -, hfresh, -⟩
        · rw [heq] at hok
          cases hok
        · exact .inr hfresh
    · subst hl
      exact hdrop name (by rw [Threads.State.acting, ht]; exact hdropping) u hu
  · rw [(hu.claim k huk).1] at hfresh
    cases hfresh

/-- The claims bound what is admitted. -/
theorem World.ClaimsHold.admitted (h : w.ClaimsHold env) : w.Admitted env := by
  refine ⟨h.exclusive, fun t ht name hname => ((h.tasks t ht).claim name hname).2,
    fun sp sid token ht => ((h.tasks _ ht).claim sp.name rfl).2, ?_⟩
  have hsub : w.tasks.filterMap Task.inFlight ⊆ w.shared.claimed.toList := by
    intro name hname
    obtain ⟨t, ht, htn⟩ := List.mem_filterMap.mp hname
    exact Std.TreeSet.mem_toList.mpr
      (Std.TreeSet.mem_iff_contains.mpr ((h.tasks t ht).claim name htn).1)
  have hlen := h.exclusive.length_le_of_subset hsub
  rw [Std.TreeSet.length_toList] at hlen
  have hle := h.shared.bounded
  omega

/-- Along every run in which no guard of a published spawn is dropped while another spawn of
the name is in flight, admission is exclusive and bounded. -/
theorem admitted_of_dropsOwnClaim (env : Env) (run : List World.Label)
    (h : Trace.AllSteps (World.next env) World.DropsOwnClaim World.init run) :
    Trace.AllStates (World.next env) (World.Admitted env) World.init run :=
  Trace.AllStates.imp (fun _ hI => hI.admitted)
    (Trace.AllStates.of_invariant (fun _ _ _ hI hc hs => World.claimsHold_next hI hc hs)
      (World.claimsHold_init env) h)

/-- `sh` is created up to its `publish`, killed, and created again; the guard of the first
create is dropped while the second one is in flight; a third create of `sh` is admitted. -/
def dropOverClaim : List World.Label :=
  [.call (.op (.claimName { name := .sh, size := .default, origin := .create })),
   .step 0 {}, .step 0 {}, .step 0 {}, .step 0 {},
   .call (.op (.killGet .sh)), .step 2 {}, .step 2 {}, .step 2 {}, .step 2 {}, .step 2 {},
   .step 2 {},
   .call (.op (.claimName { name := .sh, size := .default, origin := .create })),
   .step 3 {}, .step 3 {},
   .step 0 {},
   .call (.op (.claimName { name := .sh, size := .default, origin := .create })),
   .step 5 {}, .step 5 {}, .step 5 {}, .step 3 {}, .step 3 {}]

/-- The third spawn finds the name in the map when it publishes. -/
theorem dropOverClaim_displaces :
    ¬ Trace.AllStates (World.next .default) (World.Admitted .default) World.init
      dropOverClaim := by
  intro h
  obtain ⟨w, ha, hw⟩ := h.observe (f := fun w => (w.tasks[5]?, w.shared.sessions[SessionName.sh]?))
    (show _ = some (some (Task.op (.publish { name := .sh, size := .default, origin := .create } 2
      { plaintext := [], grant := { session := .sh, generation := ⟨1⟩, scope := .attachOnly,
                                    expiresAt := Duration.fromSecs (15 * 60) } })), some 1)
      from by decide)
  obtain ⟨ht, hm⟩ := Prod.mk.inj hw
  have hnone := ha.displaces _ _ _ (List.mem_of_getElem? ht)
  exact absurd (hnone.symm.trans hm) nofun

/-- Two creates of `sh` at once, of which the second is refused; a kill that begins while the guard
of the first is still held, and a create that it overtakes; the guard is dropped when the kill is
over, and then two more creates come at once. -/
def dropAfterKill : List World.Label :=
  let create : World.Label :=
    .call (.op (.claimName { name := .sh, size := .default, origin := .create }))
  [create, create, .step 0 {}, .step 1 {}, .step 0 {}, .step 0 {}, .step 0 {},
   .call (.op (.killGet .sh)), .step 3 {}, create, .step 3 {}, .step 4 {}, .step 3 {}, .step 3 {},
   .step 3 {}, .step 3 {}, .step 0 {},
   create, create, .step 5 {}, .step 6 {}, .step 5 {}, .step 5 {}, .step 5 {}, .step 5 {}]

/-- Every guard of it is dropped while no other spawn is in flight. -/
theorem admitted_of_dropsOwnClaim_afterKill :
    Trace.AllStates (World.next .default) (World.Admitted .default) World.init dropAfterKill :=
  admitted_of_dropsOwnClaim .default dropAfterKill (by decide)

end OpenabPty
