import PDocker.State.Container

/-!
# The health of a running container

The monitor runs one probe after the other and records each result. Its verdict
rests on the streak that it reads back from the record.
-/

set_option autoImplicit false

namespace PDocker.State

open Data

def trailingFailures (results : List HealthEntry) : Nat :=
  (results.reverse.takeWhile fun entry => entry.exitCode ≠ 0).length

/-- A start, then probes, with anything in between that leaves the container
running and its health alone. -/
inductive Monitored (retries : Nat) : List HealthEntry → ContainerState → Prop where
  | start (world : World) (proc : ProcessEntry) (state : ContainerState)
      (checked : state.hasHealthcheck = true) : Monitored retries [] (markStarted world proc state)
  | other (results : List HealthEntry) (before after : ContainerState)
      (monitored : Monitored retries results before) (running : after.running = true)
      (health : after.health = before.health) : Monitored retries results after
  | probe (results : List HealthEntry) (state : ContainerState) (world : World) (entry : HealthEntry)
      (monitored : Monitored retries results state) :
      Monitored retries (results ++ [entry]) ((reportProbe retries entry).alone state world)

/-- What the health of a container says about the results of its probes. -/
structure HealthLaw (retries : Nat) (results : List HealthEntry) (health : Health) : Prop where
  unhealthy : health.status = .unhealthy ↔ retries ≤ trailingFailures results
  settled : (∃ entry ∈ results, entry.exitCode = 0) → health.status ≠ .starting
  streak : health.failingStreak = trailingFailures results
  log : health.log = keepFive results

/-- The health that the monitor leaves. A failure within the limit always looks
like a container that is starting. -/
structure Verdict (retries : Nat) (results : List HealthEntry) (health : Health) : Prop where
  unhealthy : health.status = .unhealthy ↔ retries ≤ trailingFailures results
  starting : health.status = .starting ↔
    trailingFailures results < retries ∧ (results = [] ∨ trailingFailures results ≠ 0)
  streak : health.failingStreak = trailingFailures results
  log : health.log = keepFive results

theorem trailingFailures_append (results : List HealthEntry) (entry : HealthEntry) :
    trailingFailures (results ++ [entry]) =
      if entry.exitCode = 0 then 0 else trailingFailures results + 1 := by
  rw [trailingFailures, List.reverse_append, List.reverse_singleton, List.singleton_append]
  split
  · rename_i passed
    simp [passed]
  · rename_i failed
    simp [failed, trailingFailures]

theorem keepFive_append (log : List HealthEntry) (entry : HealthEntry) :
    keepFive (keepFive log ++ [entry]) = keepFive (log ++ [entry]) := by
  simp only [keepFive, List.length_append, List.length_drop, List.length_singleton]
  rw [List.drop_append, List.drop_append, List.drop_drop, List.length_drop]
  congr 2 <;> omega

variable {entry : HealthEntry} {health : Health} {retries : Nat} {state : ContainerState} {results : List HealthEntry}

theorem alone_reportProbe {world : World} (running : state.running = true) (found : state.health = some health) :
    (reportProbe retries entry).alone state world = recordHealth
      (if entry.exitCode = 0 then .healthy
        else if retries ≤ health.failingStreak + 1 then .unhealthy else .starting) entry state := by
  simp only [reportProbe, Prog.alone, setHealth, running, ↓reduceIte, found, Option.map_some,
    Option.getD_some]

theorem Verdict.append (positive : 1 ≤ retries) (recorded : Verdict retries results health) :
    Verdict retries (results ++ [entry])
      { status := if entry.exitCode = 0 then .healthy
          else if retries ≤ health.failingStreak + 1 then .unhealthy else .starting
        failingStreak := if entry.exitCode = 0 then 0 else health.failingStreak + 1
        log := keepFive (health.log ++ [entry])
        pdockerStopped := false } := by
  have streak := recorded.streak
  constructor
  · rw [trailingFailures_append]
    by_cases passed : entry.exitCode = 0
    · simp only [passed, ↓reduceIte, reduceCtorEq, false_iff]
      omega
    by_cases limit : retries ≤ health.failingStreak + 1
    · simp only [passed, limit, ↓reduceIte, true_iff]
      omega
    · simp only [passed, limit, ↓reduceIte, reduceCtorEq, false_iff]
      omega
  · rw [trailingFailures_append]
    by_cases passed : entry.exitCode = 0
    · simp [passed]
    by_cases limit : retries ≤ health.failingStreak + 1
    · simp only [passed, limit, ↓reduceIte, reduceCtorEq, false_iff]
      omega
    · simp only [passed, limit, ↓reduceIte, true_iff]
      exact ⟨by omega, .inr (Nat.succ_ne_zero _)⟩
  · rw [trailingFailures_append, streak]
  · rw [recorded.log, keepFive_append]

theorem Monitored.recorded (positive : 1 ≤ retries) (monitored : Monitored retries results state) :
    state.running = true ∧ ∃ health, state.health = some health ∧ Verdict retries results health := by
  induction monitored with
  | start world proc state checked =>
      refine ⟨rfl, ⟨.starting, 0, [], false⟩, ?_, ?_⟩
      · simp only [markStarted, checked, ↓reduceIte]
      constructor
      · simp only [reduceCtorEq, false_iff, trailingFailures, List.reverse_nil, List.takeWhile_nil,
          List.length_nil]
        omega
      · simp only [true_iff, trailingFailures, List.reverse_nil, List.takeWhile_nil, List.length_nil]
        exact ⟨by omega, .inl trivial⟩
      · rfl
      · rfl
  | other results before after _ running health ih =>
      obtain ⟨_, kept, found, recorded⟩ := ih
      exact ⟨running, kept, health.trans found, recorded⟩
  | probe results state world entry _ ih =>
      obtain ⟨running, health, found, recorded⟩ := ih
      rw [alone_reportProbe running found]
      refine ⟨running, _, ?_, recorded.append positive⟩
      simp only [recordHealth, found, Option.getD_some]

/-- The record follows the law except while a container that has been healthy
fails within its limit. -/
theorem healthLaw_iff {retries : Nat} (positive : 1 ≤ retries) {results : List HealthEntry}
    {state : ContainerState} (monitored : Monitored retries results state) :
    ∃ health, state.health = some health ∧ (HealthLaw retries results health ↔
      trailingFailures results = 0 ∨ retries ≤ trailingFailures results ∨
        ∀ entry ∈ results, entry.exitCode ≠ 0) := by
  obtain ⟨_, health, found, recorded⟩ := monitored.recorded positive
  refine ⟨health, found, ?_, ?_⟩
  · intro law
    by_cases failed : ∀ entry ∈ results, entry.exitCode ≠ 0
    · exact .inr (.inr failed)
    have passed : ∃ entry ∈ results, entry.exitCode = 0 := by
      simpa only [not_forall, exists_prop, Classical.not_not] using failed
    have settled := law.settled passed
    rw [ne_eq, recorded.starting] at settled
    have filled : results ≠ [] := by
      obtain ⟨entry, member, _⟩ := passed
      exact List.ne_nil_of_mem member
    by_cases limit : retries ≤ trailingFailures results
    · exact .inr (.inl limit)
    · left
      by_contra streak
      exact settled ⟨Nat.lt_of_not_le limit, .inr streak⟩
  · intro fine
    refine ⟨recorded.unhealthy, ?_, recorded.streak, recorded.log⟩
    rintro ⟨entry, member, passed⟩ starting
    obtain ⟨below, empty | streak⟩ := recorded.starting.mp starting
    · rw [empty] at member
      cases member
    rcases fine with none | limit | failed
    · exact streak none
    · exact Nat.lt_irrefl _ (Nat.lt_of_lt_of_le below limit)
    · exact failed entry member passed

section

def createdContainer : ContainerState :=
  { running := false, status := .created, pid := 0, pidStartTime := none, launcherPid := none
    launcherStartTime := none, processGroupId := none, knownPids := [], lastPid := none
    lastKnownPids := [], lastLauncherPid := none, lastProcessGroupId := none, exitCode := 0
    rawReturnCode := 0, signal := 0, error := [], startedAt := 0, finishedAt := 0, teardown := none
    health := none, hasHealthcheck := true, networks := ∅ }

def passedProbe : HealthEntry := ⟨1, 2, 0, []⟩

def failedProbe : HealthEntry := ⟨3, 4, 1, []⟩

private theorem monitored_once : Monitored 3 [passedProbe, failedProbe]
    ((reportProbe 3 failedProbe).alone ((reportProbe 3 passedProbe).alone
      (markStarted ⟨[], 0⟩ ⟨5, 6⟩ createdContainer) ⟨[], 2⟩) ⟨[], 4⟩) :=
  .probe [passedProbe] _ _ failedProbe (.probe [] _ _ passedProbe (.start ⟨[], 0⟩ ⟨5, 6⟩ createdContainer rfl))

theorem healthLaw_iff_once : ∃ health, ((reportProbe 3 failedProbe).alone ((reportProbe 3 passedProbe).alone
      (markStarted ⟨[], 0⟩ ⟨5, 6⟩ createdContainer) ⟨[], 2⟩) ⟨[], 4⟩).health = some health ∧
    (HealthLaw 3 [passedProbe, failedProbe] health ↔ trailingFailures [passedProbe, failedProbe] = 0 ∨
      3 ≤ trailingFailures [passedProbe, failedProbe] ∨ ∀ entry ∈ [passedProbe, failedProbe], entry.exitCode ≠ 0) :=
  healthLaw_iff (by decide) monitored_once

/-- A single failure makes a healthy container start again. -/
theorem healthy_starts_again : ∃ state health, Monitored 3 [passedProbe, failedProbe] state ∧
    state.health = some health ∧ health.status = .starting ∧ ¬ HealthLaw 3 [passedProbe, failedProbe] health := by
  refine ⟨_, _, monitored_once, rfl, rfl, fun law => ?_⟩
  exact law.settled ⟨passedProbe, List.mem_cons_self, rfl⟩ rfl

end

end PDocker.State
