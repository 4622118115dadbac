import OpenabPty.KillDomain
import OpenabPty.Core.Words

/-!
# Who is alive in a group (`killdomain.rs`)

`kill(-pgid, 0)` succeeds while the group has a member, and a zombie is one. Whether a member has
not exited is read from the lines of `/proc/<pid>/stat`, which hold the name that the process has
given itself, with any characters in it, and the state of its first thread, which may have ended
before the others.
-/

namespace OpenabPty

open Words

/-- One line of `/proc`, for the process group `pgid`. -/
def isLiveMember (stat : List Char) (pgid : Int) : Bool :=
  match rsplitOnce ')' ' ' stat with
  | none => false
  | some (_, tail) =>
    let fields := splitWhitespace tail
    let state := fields[0]?.getD ['Z']
    let group := fields[2]?.bind parseI32
    group == some pgid && state != ['Z']

/-- `linux_group_has_live_member`. `proc` is the directory, if it can be read: for each of its
entries the line of its `stat`, if that can be read and is UTF-8. -/
def linuxGroupHasLiveMember (proc : Option (List (Option (List Char)))) (pgid : Int) : Bool :=
  match proc with
  | none => true
  | some entries => entries.any fun stat => stat.any (isLiveMember · pgid)

/-- What `kill` returned for signal 0. -/
inductive Probe where
  | delivered
  | noSuchProcess
  | notPermitted
  deriving DecidableEq, Repr

/-- `SystemSignals::group_alive`. -/
def SystemSignals.groupAlive (probe : Probe) (proc : Option (List (Option (List Char))))
    (pgid : Int) : Bool :=
  match probe with
  | .delivered => linuxGroupHasLiveMember proc pgid
  | .noSuchProcess => false
  | .notPermitted => true

/-! ## The lines -/

/-- What the kernel writes about a process. The letter of a zombie is `Z`. -/
structure Stat where
  pid : Nat
  comm : List Char
  state : Char
  ppid : Nat
  pgrp : Nat
  rest : List Int
  letter : state.isAlpha = true
  small : pgrp < 2 ^ 31

namespace Stat

/-- The fields after the name. -/
def fields (s : Stat) : List Char :=
  s.state :: ' ' :: (printInt s.ppid ++ ' ' :: (printInt s.pgrp ++
    (s.rest.flatMap fun n => ' ' :: printInt n) ++ ['\n']))

/-- The line. -/
def text (s : Stat) : List Char := printInt s.pid ++ ' ' :: '(' :: s.comm ++ ')' :: ' ' :: s.fields

theorem isAlpha_ne {c : Char} (h : c.isAlpha = true) : c ≠ ')' ∧ isWhitespace c = false := by
  have hrange : (65 ≤ c.toNat ∧ c.toNat ≤ 90) ∨ (97 ≤ c.toNat ∧ c.toNat ≤ 122) := by
    rcases Bool.or_eq_true_iff.mp h with hcase | hcase
    · have hbounds : c.val ≥ 'A'.val ∧ c.val ≤ 'Z'.val := of_decide_eq_true hcase
      exact .inl hbounds
    · have hbounds : (decide (c.val ≥ 'a'.val) && decide (c.val ≤ 'z'.val)) = true := hcase
      obtain ⟨hlow, hhigh⟩ := Bool.and_eq_true_iff.mp hbounds
      exact .inr ⟨of_decide_eq_true hlow, of_decide_eq_true hhigh⟩
  refine ⟨?_, ?_⟩
  · rintro rfl
    revert hrange
    decide
  · simp only [isWhitespace, Bool.or_eq_false_iff, Bool.and_eq_false_iff, decide_eq_false_iff_not,
      beq_eq_false_iff_ne]
    omega

theorem not_mem_printInt (n : Int) : ')' ∉ printInt n := by
  intro h
  rcases mem_printInt h with h | h <;> revert h <;> decide

/-- No bracket stands after the name. -/
theorem not_mem_fields (s : Stat) : ')' ∉ s.fields := by
  simp only [fields, List.mem_cons, List.mem_append, List.mem_flatMap, not_or, not_exists, not_and]
  refine ⟨(isAlpha_ne s.letter).1.symm, by decide, not_mem_printInt _, by decide,
    ⟨not_mem_printInt _, fun n _ => ⟨by decide, not_mem_printInt n⟩⟩, by decide, List.not_mem_nil⟩

/-- The words after the name. -/
theorem splitWhitespace_fields (s : Stat) :
    ∃ others, splitWhitespace s.fields =
      [s.state] :: printInt s.ppid :: printInt s.pgrp :: others := by
  have hstate : ∀ c ∈ [s.state], isWhitespace c = false := by
    intro c hc
    rw [List.mem_singleton.mp hc]
    exact (isAlpha_ne s.letter).2
  obtain ⟨c, rest, hc, hrest⟩ : ∃ c rest, isWhitespace c = true ∧
      (s.rest.flatMap fun n => ' ' :: printInt n) ++ ['\n'] = c :: rest := by
    cases s.rest with
    | nil => exact ⟨'\n', [], by decide, rfl⟩
    | cons n ns => exact ⟨' ', _, by decide, rfl⟩
  refine ⟨splitWhitespace rest, ?_⟩
  have hfields : s.fields =
      [s.state] ++ ' ' :: (printInt s.ppid ++ ' ' :: (printInt s.pgrp ++ c :: rest)) := by
    rw [fields, List.append_assoc, hrest]
    rfl
  rw [hfields, splitWhitespace_append (List.cons_ne_nil _ _) hstate (by decide),
    splitWhitespace_append (printInt_ne_nil _) (isWhitespace_printInt _) (by decide),
    splitWhitespace_append (printInt_ne_nil _) (isWhitespace_printInt _) hc]

/-- A line is read as it was written, whatever name the process has. -/
theorem isLiveMember_text (s : Stat) (pgid : Int) :
    isLiveMember s.text pgid = true ↔ (s.pgrp : Int) = pgid ∧ s.state ≠ 'Z' := by
  obtain ⟨others, hwords⟩ := s.splitWhitespace_fields
  have hcut : rsplitOnce ')' ' ' s.text = some (printInt s.pid ++ ' ' :: '(' :: s.comm, s.fields) :=
    rsplitOnce_append _ (by decide) s.not_mem_fields
  have hparse : parseI32 (printInt s.pgrp) = some (s.pgrp : Int) :=
    parseI32_printInt (by omega) (by have := s.small; omega)
  rw [isLiveMember, hcut]
  simp [hwords, hparse]

end Stat

/-! ## The table and the directory -/

namespace Kernel

/-- A member of a group, a zombie or not. -/
def member (k : Kernel) (pgid : Pid) (q : Process) : Bool := !q.reaped && k.pgid q == some pgid

/-- `kill(-pgid, 0)`, where `may` says which processes the runtime may signal. -/
def probe (k : Kernel) (may : Nat → Bool) (pgid : Pid) : Probe :=
  if k.processes.zipIdx.any fun e => k.member pgid e.1 && may e.2 then .delivered
  else if k.processes.any (k.member pgid) then .notPermitted
  else .noSuchProcess

/-- A line is about a process; `ended` says whether the first thread of the process has ended. -/
structure Describes (k : Kernel) (q : Process) (ended : Bool) (s : Stat) : Prop where
  pid : s.pid = q.pid
  pgrp : k.pgid q = some s.pgrp
  zombie : s.state = 'Z' ↔ ended = true

/-- The directory lists the processes that are not reaped, in any order and with other entries
between them. It hides those whose line cannot be read, or is not UTF-8. -/
structure Lists (k : Kernel) (hidden ended : Nat → Bool) (entries : List (Option (List Char))) :
    Prop where
  listed : ∀ i q, k.processes[i]? = some q → q.reaped = false → hidden i = false →
    ∃ s : Stat, k.Describes q (ended i) s ∧ some s.text ∈ entries
  known : ∀ line, some line ∈ entries → ∃ i q, ∃ s : Stat, k.processes[i]? = some q ∧
    q.reaped = false ∧ hidden i = false ∧ k.Describes q (ended i) s ∧ line = s.text

variable {k : Kernel} {may hidden ended : Nat → Bool} {pgid : Pid}
  {entries : List (Option (List Char))}

theorem member_iff {q : Process} :
    k.member pgid q = true ↔ q.reaped = false ∧ k.pgid q = some pgid := by
  simp [member]

theorem probe_eq_delivered :
    k.probe may pgid = .delivered ↔
      ∃ (i : Nat) (q : Process), k.processes[i]? = some q ∧ k.member pgid q = true ∧
        may i = true := by
  have hany : (k.processes.zipIdx.any fun e => k.member pgid e.1 && may e.2) = true ↔
      ∃ (i : Nat) (q : Process), k.processes[i]? = some q ∧ k.member pgid q = true ∧
        may i = true := by
    rw [List.any_eq_true]
    constructor
    · rintro ⟨⟨q, i⟩, he, hq⟩
      rw [Bool.and_eq_true] at hq
      exact ⟨i, q, by simpa using List.mem_zipIdx_iff_getElem?.mp he, hq.1, hq.2⟩
    · rintro ⟨i, q, hi, hq, hmay⟩
      exact ⟨(q, i), List.mem_zipIdx_iff_getElem?.mpr (by simpa using hi), by simp [hq, hmay]⟩
  rw [← hany, probe]
  split_ifs with hsome hmember <;> simp [hsome]

theorem probe_eq_notPermitted :
    k.probe may pgid = .notPermitted ↔
      (∃ q ∈ k.processes, k.member pgid q = true) ∧ k.probe may pgid ≠ .delivered := by
  rw [← List.any_eq_true, probe]
  split_ifs with hsome hmember
  · simp
  · simp [hmember]
  · simp [hmember]

/-- The directory shows a member whose first thread has not ended, unless it hides it. -/
theorem Lists.linuxGroupHasLiveMember_iff (h : k.Lists hidden ended entries) :
    linuxGroupHasLiveMember (some entries) pgid = true ↔
      ∃ (i : Nat) (q : Process), k.processes[i]? = some q ∧ k.member pgid q = true ∧
        ended i = false ∧ hidden i = false := by
  rw [linuxGroupHasLiveMember, List.any_eq_true]
  constructor
  · rintro ⟨stat, hstat, hlive⟩
    obtain ⟨line, rfl⟩ : ∃ line, stat = some line := by
      cases stat with
      | none => cases hlive
      | some line => exact ⟨line, rfl⟩
    rw [Option.any_some] at hlive
    obtain ⟨i, q, s, hi, hreaped, hshown, hs, rfl⟩ := h.known line hstat
    obtain ⟨hpgrp, hstate⟩ := (s.isLiveMember_text _).mp hlive
    have hended : ended i = false := by
      rw [← Bool.not_eq_true, ← hs.zombie]
      exact hstate
    have hpgid : k.pgid q = some pgid := by
      rw [hs.pgrp]
      exact congrArg some (by omega)
    exact ⟨i, q, hi, member_iff.mpr ⟨hreaped, hpgid⟩, hended, hshown⟩
  · rintro ⟨i, q, hi, hmember, hended, hshown⟩
    obtain ⟨hreaped, hpgid⟩ := member_iff.mp hmember
    obtain ⟨s, hs, hmem⟩ := h.listed i q hi hreaped hshown
    have hpgrp : s.pgrp = pgid := Option.some.inj (hs.pgrp.symm.trans hpgid)
    refine ⟨some s.text, hmem, ?_⟩
    rw [Option.any_some, s.isLiveMember_text]
    refine ⟨congrArg Nat.cast hpgrp, ?_⟩
    rw [ne_eq, hs.zombie, hended]
    exact Bool.false_ne_true

/-- What the code takes for alive: a group that has members of which none may be signalled, or one
of which one may and one is shown with a first thread that has not ended. -/
theorem Lists.groupAlive_iff_shown (h : k.Lists hidden ended entries) :
    SystemSignals.groupAlive (k.probe may pgid) (some entries) pgid = true ↔
      ((∃ q ∈ k.processes, k.member pgid q = true) ∧
        ∀ (i : Nat) (q : Process), k.processes[i]? = some q → k.member pgid q = true →
          may i = false) ∨
      ((∃ (i : Nat) (q : Process), k.processes[i]? = some q ∧ k.member pgid q = true ∧
          may i = true) ∧
        ∃ (i : Nat) (q : Process), k.processes[i]? = some q ∧ k.member pgid q = true ∧
          ended i = false ∧ hidden i = false) := by
  rw [← probe_eq_delivered, ← h.linuxGroupHasLiveMember_iff]
  have hnone : (∀ (i : Nat) (q : Process), k.processes[i]? = some q → k.member pgid q = true →
      may i = false) ↔ k.probe may pgid ≠ .delivered := by
    rw [ne_eq, probe_eq_delivered]
    simp
  rw [hnone, ← probe_eq_notPermitted]
  cases k.probe may pgid <;> simp [SystemSignals.groupAlive]

/-- What the model takes for alive, by the members. -/
theorem groupAlive_iff_member (hreaped : ∀ q ∈ k.processes, q.reaped = true → q.exited = true) :
    k.groupAlive pgid = true ↔ ∃ (i : Nat) (q : Process), k.processes[i]? = some q ∧
      k.member pgid q = true ∧ q.exited = false := by
  rw [groupAlive, List.any_eq_true]
  constructor
  · rintro ⟨q, hq, hlive⟩
    simp only [Bool.and_eq_true, Bool.not_eq_true', beq_iff_eq] at hlive
    obtain ⟨hexited, hpgid⟩ := hlive
    obtain ⟨i, hi⟩ := List.mem_iff_getElem?.mp hq
    refine ⟨i, q, hi, member_iff.mpr ⟨?_, hpgid⟩, hexited⟩
    by_contra hr
    rw [hreaped q hq (by simpa using hr)] at hexited
    cases hexited
  · rintro ⟨i, q, hi, hmember, hexited⟩
    refine ⟨q, List.mem_of_getElem? hi, ?_⟩
    simp [hexited, (member_iff.mp hmember).2]

end Kernel

end OpenabPty
