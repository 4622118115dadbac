import OpenabPty.FrontDoor
import OpenabPty.Lockout
import Mathlib.Data.List.Induction

/-!
# Who gets past the door (`server.rs`)

A request that is upgraded or served was accepted by the secrets at some step of the run, and one
that an admin route works for has presented the credential of the verifier.
-/

namespace OpenabPty

variable {env : Env} {display : IpAddr → Text} {sha256 : List UInt8 → Digest}

/-- The call has compared the hashes and found them the same. -/
def AdminPc.passed : AdminPc → Bool
  | .clear | .release (.ok ()) | .returned (.ok ()) => true
  | _ => false

/-- A call passes only with the credential of the verifier. -/
theorem AdminCall.correct_of_passed {a a' : AdminAuthenticator} {call call' : AdminCall}
    (hstep : call.step sha256 a = some (a', call'))
    (h : call.pc.passed = true → call.credential.map sha256 = some a.verifier)
    (hpassed : call'.pc.passed = true) : call'.credential.map sha256 = some a'.verifier := by
  obtain ⟨hverifier, hcredential, -⟩ := AdminCall.step_spec hstep
  rw [hverifier, hcredential]
  obtain ⟨credential, source, pc⟩ := call
  cases pc with
  | clear => exact h rfl
  | start =>
    simp only [step] at hstep
    cases credential with
    | none =>
      obtain ⟨rfl, rfl⟩ := Prod.mk.inj (Option.some.inj hstep)
      cases hpassed
    | some presented =>
      dsimp only at hstep
      split at hstep <;> obtain ⟨rfl, rfl⟩ := Prod.mk.inj (Option.some.inj hstep) <;> cases hpassed
  | acquire =>
    simp only [step] at hstep
    split at hstep <;> obtain ⟨rfl, rfl⟩ := Prod.mk.inj (Option.some.inj hstep) <;> cases hpassed
  | digest =>
    simp only [step] at hstep
    split at hstep
    · assumption
    · obtain ⟨rfl, rfl⟩ := Prod.mk.inj (Option.some.inj hstep)
      cases hpassed
  | readClock detail failure held | countClock detail failure held =>
    obtain ⟨rfl, rfl⟩ := Prod.mk.inj (Option.some.inj hstep)
    cases hpassed
  | blockedFor detail failure held now =>
    simp only [step] at hstep
    split at hstep <;> obtain ⟨rfl, rfl⟩ := Prod.mk.inj (Option.some.inj hstep) <;>
      cases held <;> cases hpassed
  | record detail failure held now =>
    obtain ⟨rfl, rfl⟩ := Prod.mk.inj (Option.some.inj hstep)
    cases held <;> cases hpassed
  | release result =>
    obtain ⟨rfl, rfl⟩ := Prod.mk.inj (Option.some.inj hstep)
    cases result with
    | ok => exact h rfl
    | error failure => cases hpassed
  | returned result => cases hstep

namespace Door

variable {views : Views} {d t t' : Door} {ls : List Label} {i : Nat} {v v' : Visit}
  {request : Request} {outcome : Outcome} {name : SessionName}

/-- At a step of the run, the secrets accepted the request for this session. -/
def AcceptedIn (env : Env) (display : IpAddr → Text) (d : Door) (ls : List Label) (i : Nat)
    (request : Request) (name : SessionName) : Prop :=
  ∃ before views after t, ls = before ++ .advance i views :: after ∧
    Trace.run (next env display) d before = some t ∧ views.Accepts env t request name

/-- Why a request got its answer. -/
inductive Passed (env : Env) (display : IpAddr → Text) (d : Door) (ls : List Label) (i : Nat) :
    Request → Outcome → Prop where
  | response {request : Request} (r : Response) : Passed env display d ls i request (.response r)
  | upgrade {request : Request} {name : SessionName}
      (h : AcceptedIn env display d ls i request name) :
      Passed env display d ls i request (.upgrade name)
  | loopback {request : Request} {name : SessionName}
      (h : AcceptedIn env display d ls i request name) :
      Passed env display d ls i request (.loopback name)
  | admin {source : IpAddr} {headers : HeaderMap} {credential : List UInt8}
      (hcredential : adminCredential headers = some credential)
      (hverifier : env.sha256 credential = d.admin.verifier) :
      Passed env display d ls i (.admin source headers) .admin

/-- What is known of a request where it is. -/
def Explained (env : Env) (display : IpAddr → Text) (d : Door) (ls : List Label) (i : Nat)
    (v : Visit) : Prop :=
  match v.phase with
  | .gate call =>
    (∃ source headers, v.request = .admin source headers ∧
      call.credential = adminCredential headers) ∧
    (call.pc.passed = true → call.credential.map env.sha256 = some d.admin.verifier)
  | .answered outcome => Passed env display d ls i v.request outcome
  | _ => True

theorem AcceptedIn.concat (h : AcceptedIn env display d ls i request name) (l : Label) :
    AcceptedIn env display d (ls ++ [l]) i request name := by
  obtain ⟨before, views, after, t, rfl, hrun, haccepts⟩ := h
  exact ⟨before, views, after ++ [l], t, by simp, hrun, haccepts⟩

theorem Passed.concat (h : Passed env display d ls i request outcome) (l : Label) :
    Passed env display d (ls ++ [l]) i request outcome := by
  cases h with
  | response r => exact .response r
  | upgrade h => exact .upgrade (h.concat l)
  | loopback h => exact .loopback (h.concat l)
  | admin hcredential hverifier => exact .admin hcredential hverifier

theorem Explained.concat (h : Explained env display d ls i v) (l : Label) :
    Explained env display d (ls ++ [l]) i v := by
  obtain ⟨request, phase⟩ := v
  cases phase with
  | arrived | unbanned | admitted => trivial
  | gate call => exact h
  | answered outcome => exact Passed.concat h l

/-- What is known of a request after its next step. -/
theorem explained_step (hrun : Trace.run (next env display) d ls = some t)
    (hverifier : t.admin.verifier = d.admin.verifier)
    (hv : Explained env display d ls i v)
    (hstep : t.step env display views v = some (t', v')) :
    t'.admin.verifier = d.admin.verifier ∧ t'.visits = t.visits ∧
      Explained env display d (ls ++ [.advance i views]) i v' := by
  have haccepted : ∀ name, views.Accepts env t v.request name →
      AcceptedIn env display d (ls ++ [.advance i views]) i v.request name :=
    fun name h => ⟨ls, views, [], t, rfl, hrun, h⟩
  obtain ⟨request, phase⟩ := v
  cases phase with
  | arrived =>
    cases request with
    | attach source | toolsAttach source =>
      have hcheck := Option.some.inj hstep
      unfold check at hcheck
      split at hcheck <;> obtain ⟨rfl, rfl⟩ := Prod.mk.inj hcheck
      · exact ⟨hverifier, rfl, trivial⟩
      · exact ⟨hverifier, rfl, .response _⟩
    | toolsLoopback session key =>
      obtain ⟨rfl, rfl⟩ := Prod.mk.inj (Option.some.inj hstep)
      refine ⟨hverifier, rfl, ?_⟩
      obtain ⟨name, hname⟩ | hr := toolsLoopback_cases views session key
      · have haccepts := haccepted name (toolsLoopback_eq_loopback.mp hname)
        simpa only [Explained, Visit.answer, Visit.goto, hname] using Passed.loopback haccepts
      · simpa only [Explained, Visit.answer, Visit.goto, hr] using Passed.response _
    | toolsLoopbackBearer headers =>
      obtain ⟨rfl, rfl⟩ := Prod.mk.inj (Option.some.inj hstep)
      refine ⟨hverifier, rfl, ?_⟩
      obtain ⟨name, hname⟩ | hr := toolsLoopbackBearer_cases views headers
      · have haccepts := haccepted name (toolsLoopbackBearer_eq_loopback.mp hname)
        simpa only [Explained, Visit.answer, Visit.goto, hname] using Passed.loopback haccepts
      · simpa only [Explained, Visit.answer, Visit.goto, hr] using Passed.response _
    | admin source headers =>
      obtain ⟨rfl, rfl⟩ := Prod.mk.inj (Option.some.inj hstep)
      refine ⟨?_, ?_, ⟨source, headers, rfl, rfl⟩, fun hpassed => by cases hpassed⟩
      · split <;> exact hverifier
      · split <;> rfl
  | unbanned =>
    obtain ⟨rfl, rfl⟩ := Prod.mk.inj (Option.some.inj hstep)
    refine ⟨hverifier, rfl, ?_⟩
    split
    · exact .response _
    · trivial
  | admitted =>
    cases request with
    | toolsLoopback | toolsLoopbackBearer | admin => cases hstep
    | attach source headers session rows cols =>
      simp only [step] at hstep
      cases hname : attachName env views headers session with
      | none =>
        rw [hname] at hstep
        obtain ⟨rfl, rfl⟩ := Prod.mk.inj (Option.some.inj hstep)
        exact ⟨hverifier, rfl, .response _⟩
      | some name =>
        rw [hname] at hstep
        obtain ⟨rfl, rfl⟩ := Prod.mk.inj (Option.some.inj hstep)
        refine ⟨hverifier, rfl, ?_⟩
        split
        · exact .response _
        · exact .upgrade (haccepted name (attachName_eq_some.mp hname))
    | toolsAttach source headers session =>
      simp only [step] at hstep
      cases hname : toolsAttachName env views t.toolsHub t.now headers session with
      | none =>
        rw [hname] at hstep
        obtain ⟨rfl, rfl⟩ := Prod.mk.inj (Option.some.inj hstep)
        exact ⟨hverifier, rfl, .response _⟩
      | some name =>
        rw [hname] at hstep
        obtain ⟨rfl, rfl⟩ := Prod.mk.inj (Option.some.inj hstep)
        exact ⟨hverifier, rfl, .upgrade (haccepted name (toolsAttachName_eq_some.mp hname))⟩
  | gate call =>
    obtain ⟨⟨source, headers, rfl, hcredential⟩, hcorrect⟩ := hv
    simp only [step] at hstep
    split at hstep
    · rename_i hpc
      obtain ⟨rfl, rfl⟩ := Prod.mk.inj (Option.some.inj hstep)
      refine ⟨hverifier, rfl, ?_⟩
      have hsome := hcorrect (by rw [hpc]; rfl)
      rw [hcredential, Option.map_eq_some_iff] at hsome
      obtain ⟨credential, hsome, hhash⟩ := hsome
      exact .admin hsome hhash
    · obtain ⟨rfl, rfl⟩ := Prod.mk.inj (Option.some.inj hstep)
      refine ⟨?_, ?_, .response _⟩
      · split <;> exact hverifier
      · split <;> rfl
    · obtain ⟨⟨a, call'⟩, hcall, hpair⟩ := Option.map_eq_some_iff.mp hstep
      obtain ⟨rfl, rfl⟩ := Prod.mk.inj hpair
      obtain ⟨hsame, hkept, -⟩ := AdminCall.step_spec hcall
      refine ⟨hsame.trans hverifier, rfl, ⟨source, headers, rfl, hkept.trans hcredential⟩, ?_⟩
      intro hpassed
      rw [AdminCall.correct_of_passed hcall (fun h => (hcorrect h).trans (by rw [hverifier])) hpassed,
        hsame, hverifier]
  | answered outcome => cases request <;> cases hstep

/-- What is known of every request after a run. -/
theorem explained_of_run (hd : d.visits = []) (hrun : Trace.run (next env display) d ls = some t) :
    t.admin.verifier = d.admin.verifier ∧
      ∀ i v, t.visits[i]? = some v → Explained env display d ls i v := by
  induction ls using List.reverseRecOn generalizing t with
  | nil =>
    obtain rfl := Option.some.inj hrun
    refine ⟨rfl, fun i v hi => ?_⟩
    rw [hd] at hi
    cases hi
  | append_singleton ls l ih =>
    rw [Trace.run_append] at hrun
    obtain ⟨s, hs, hlast⟩ := Option.bind_eq_some_iff.mp hrun
    obtain ⟨t', hnext, ht⟩ := Option.bind_eq_some_iff.mp hlast
    obtain rfl := Option.some.inj ht
    obtain ⟨hverifier, hexplained⟩ := ih hs
    have hkept : ∀ i v, s.visits[i]? = some v → Explained env display d (ls ++ [l]) i v :=
      fun i v hi => (hexplained i v hi).concat l
    cases l with
    | enter request =>
      obtain rfl := Option.some.inj hnext
      refine ⟨hverifier, fun i v hi => ?_⟩
      rw [List.getElem?_append] at hi
      split at hi
      · exact hkept i v hi
      · rw [List.getElem?_singleton] at hi
        split at hi
        · obtain rfl := Option.some.inj hi
          trivial
        · cases hi
    | advance k views =>
      obtain ⟨v, hv, hmoved⟩ := Option.bind_eq_some_iff.mp hnext
      obtain ⟨⟨s', v'⟩, hstep, rfl⟩ := Option.map_eq_some_iff.mp hmoved
      obtain ⟨hsame, hvisits, hv'⟩ := explained_step hs hverifier (hexplained k v hv) hstep
      refine ⟨hsame, fun i w hi => ?_⟩
      rw [List.getElem?_set] at hi
      split at hi
      · rename_i hik
        split at hi
        · obtain rfl := Option.some.inj hi
          exact hik ▸ hv'
        · cases hi
      · exact hkept i w (hvisits ▸ hi)
    | drain | pass elapsed =>
      obtain rfl := Option.some.inj hnext
      exact ⟨hverifier, hkept⟩
    | rehash entries failures =>
      simp only [next] at hnext
      split at hnext
      · obtain rfl := Option.some.inj hnext
        exact ⟨hverifier, hkept⟩
      · cases hnext

/-- In every run, with any requests at the door at once and any change of the secrets: a request is
upgraded, or served over loopback, for a session for which the secrets accepted it at one of its own
steps, and an admin route goes on behind its gate only for the credential of the verifier. -/
theorem passed_of_run (hd : d.visits = []) (hrun : Trace.run (next env display) d ls = some t)
    (hi : t.visits[i]? = some ⟨request, .answered outcome⟩) :
    Passed env display d ls i request outcome :=
  (explained_of_run hd hrun).2 i _ hi

/-- The credential `key`, where SHA-256 is the identity, opens the gate. -/
theorem passed_of_run_key :
    let request : Request := .admin (.v4 1) ⟨some (ascii "Bearer key"), none⟩
    let d : Door :=
      { toolsHub := false, upgrades := .default, admin := .new id (ascii "key") 4 100 0,
        draining := false, abuse := ⟨0, 0, 0⟩, visits := [] }
    let ls : List Label :=
      .enter request :: .replicate 7 (.advance 0 ⟨.init, .init, .init, .new 1⟩)
    ((Trace.run (next .default fun _ => []) d ls).bind (·.visits[0]?)) =
        some ⟨request, .answered .admin⟩ ∧
      Passed .default (fun _ => []) d ls 0 request .admin := by
  intro request d ls
  have hanswer : ((Trace.run (next .default fun _ => []) d ls).bind (·.visits[0]?)) =
      some ⟨request, .answered .admin⟩ := rfl
  obtain ⟨t, hrun, hi⟩ := Option.bind_eq_some_iff.mp hanswer
  exact ⟨hanswer, passed_of_run rfl hrun hi⟩

end Door

end OpenabPty
