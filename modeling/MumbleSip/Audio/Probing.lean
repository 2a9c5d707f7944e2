import MumbleSip.Audio.Settling
import MumbleSip.Lib.Polling

/-!
# Looking for the service

The two loops of `tts.rs` that ask the service for its health: the one that waits for it at the start of the bridge,
and the burst after a failure. What the service answers, how long a request takes and how late a timer fires is up
to the environment, request by request. Times are in nanoseconds.
-/

namespace MumbleSip

open Transition Polling

def millis (ms : Nat) : Nat := ms * 10 ^ 6

def postFailureHealthTimeout : Nat := millis 250

/-- What becomes of a request for `/health`, with the status code of a response, and how late the timer fires that
the loop waits for after it. -/
structure HealthRequest where
  duration : Nat
  response : Except String UInt16
  lag : Nat

/-- `health_check`; a status is a success from 200 to 299. -/
def HealthRequest.healthCheck (request : HealthRequest) : Bool :=
  match request.response with
  | .ok status => 200 ≤ status && status < 300
  | .error _ => false

namespace HealthRequest

variable {request : HealthRequest}

/-- The service is there, and answers in time. -/
def Answered (request : HealthRequest) : Prop :=
  request.duration ≤ postFailureHealthTimeout ∧ request.healthCheck = true

end HealthRequest

/-! ### The loops -/

/-- The address and the timeout of a `TtsSection`. -/
structure TtsService where
  host : String
  port : UInt16
  startupTimeoutMs : UInt64

def TtsService.startupError (service : TtsService) : String :=
  "pocket-tts service at " ++ service.host ++ ":" ++ toString service.port ++ " did not become healthy within "
    ++ toString service.startupTimeoutMs ++ "ms"

/-- How a loop ends: its result, the number of its last request, and when. -/
structure Probed where
  healthy : Bool
  last : Nat
  now : Nat
  deriving DecidableEq

/-- The loop of `ensure_server_ready_startup`, from its request `i` on. -/
def startupLoop (requests : Nat → HealthRequest) (deadline i now : Nat) : Probed :=
  let request := requests i
  if request.healthCheck then ⟨true, i, now + request.duration⟩
  else if deadline ≤ now + request.duration then ⟨false, i, now + request.duration⟩
  else startupLoop requests deadline (i + 1) (now + request.duration + (millis 250 + request.lag))
termination_by deadline - now
decreasing_by
  have hpause : 0 < millis 250 := by decide
  omega

def ensureServerReadyStartup (service : TtsService) (requests : Nat → HealthRequest) (now : Nat) : Probed :=
  let first := requests 0
  if first.healthCheck then ⟨true, 0, now + first.duration⟩
  else
    let deadline := now + first.duration + millis service.startupTimeoutMs.toNat
    startupLoop requests deadline 1 (now + first.duration)

/-- The result that `startup` gives to `main`. -/
def Probed.result (service : TtsService) (probed : Probed) : Except String Unit :=
  if probed.healthy then .ok () else .error service.startupError

theorem Probed.result_eq_ok {service : TtsService} {probed : Probed} :
    probed.result service = .ok () ↔ probed.healthy = true := by
  unfold Probed.result
  split_ifs with hhealthy
  · exact iff_of_true rfl hhealthy
  · exact iff_of_false (fun herror => by cases herror) hhealthy

theorem Probed.result_eq_error {service : TtsService} {probed : Probed} {error : String}
    (h : probed.result service = .error error) : probed.healthy = false ∧ error = service.startupError := by
  unfold Probed.result at h
  split_ifs at h with hhealthy
  exact ⟨Bool.eq_false_of_not_eq_true hhealthy, (Except.error.inj h).symm⟩

namespace TtsService

/-- The requests of the loop. -/
def startupAttempts (requests : Nat → HealthRequest) (k : Nat) : Attempt :=
  ⟨(requests (k + 1)).healthCheck, (requests (k + 1)).duration, millis 250 + (requests (k + 1)).lag⟩

/-- The loop is a run of these attempts, which goes on while the deadline has not passed. -/
theorem startupLoop_ran (requests : Nat → HealthRequest) (deadline start : Nat) (k : Nat)
    (hbefore : ∀ i < k, (startupAttempts requests i).ok = false ∧
      endedAt (startupAttempts requests) start i < deadline) :
    ∃ last ok, Ran (startupAttempts requests) (fun i => endedAt (startupAttempts requests) start i < deadline) last ok ∧
      startupLoop requests deadline (k + 1) (startedAt (startupAttempts requests) start k)
        = ⟨ok, last + 1, endedAt (startupAttempts requests) start last⟩ := by
  generalize hleft : deadline - startedAt (startupAttempts requests) start k = left
  induction left using Nat.strong_induction_on generalizing k with
  | h left ih =>
    rw [startupLoop]
    by_cases hhealthy : (requests (k + 1)).healthCheck = true
    · exact ⟨k, true, ⟨hbefore, hhealthy, fun hfalse => by cases hfalse⟩, by simp only [if_pos hhealthy]; rfl⟩
    · have hfailed : (startupAttempts requests k).ok = false := Bool.eq_false_of_not_eq_true hhealthy
      by_cases hlate : deadline ≤ endedAt (startupAttempts requests) start k
      · refine ⟨k, false, ⟨hbefore, hfailed, fun _ => Nat.not_lt.2 hlate⟩, ?_⟩
        simp only [if_neg hhealthy]
        exact if_pos hlate
      · have hearly : endedAt (startupAttempts requests) start k < deadline := Nat.not_le.1 hlate
        have hstarted : startedAt (startupAttempts requests) start k
            < startedAt (startupAttempts requests) start (k + 1) := by
          have hpause : 0 < millis 250 := by decide
          rw [startedAt_succ]
          simp only [startupAttempts]
          omega
        have hlt : startedAt (startupAttempts requests) start k < deadline :=
          (Nat.le_add_right _ _).trans_lt hearly
        obtain ⟨last, ok, hran, hloop⟩ := ih _ (by omega) (k + 1) (fun i hi => by
          rcases Nat.lt_succ_iff_lt_or_eq.1 hi with hold | rfl
          · exact hbefore i hold
          · exact ⟨hfailed, hearly⟩) rfl
        refine ⟨last, ok, hran, ?_⟩
        simp only [if_neg hhealthy]
        exact (if_neg hlate).trans hloop

/-- When the loop starts. -/
def loopStart (requests : Nat → HealthRequest) (now : Nat) : Nat := now + (requests 0).duration

def deadline (service : TtsService) (requests : Nat → HealthRequest) (now : Nat) : Nat :=
  loopStart requests now + millis service.startupTimeoutMs.toNat

/-- When a request is made. -/
def requestedAt (requests : Nat → HealthRequest) (now : Nat) : Nat → Nat
  | 0 => now
  | k + 1 => startedAt (startupAttempts requests) (loopStart requests now) k

def answeredAt (requests : Nat → HealthRequest) (now k : Nat) : Nat :=
  requestedAt requests now k + (requests k).duration

/-- The bridge waits for the service as long as it is told to. -/
structure Waits (service : TtsService) (requests : Nat → HealthRequest) (now : Nat) (probed : Probed) : Prop where
  /-- The service is found exactly if it answers a request that is not preceded by one that comes back too late. -/
  result : probed.result service = .ok () ↔ ∃ k, (requests k).healthCheck = true ∧
    ∀ j, 1 ≤ j → j < k → answeredAt requests now j < service.deadline requests now
  ends : probed.now = answeredAt requests now probed.last
  last : probed.last ≤ service.startupTimeoutMs.toNat / 250 + 2
  /-- It is given up only after the deadline, and then soon. -/
  late : ∀ error, probed.result service = .error error →
    error = service.startupError ∧ service.deadline requests now ≤ probed.now
  soon : ∀ duration lag, (∀ k, (requests k).duration ≤ duration) → (∀ k, (requests k).lag ≤ lag) →
    probed.now ≤ service.deadline requests now + millis 250 + lag + duration
  /-- A service that has come up by the deadline is found. -/
  found : ∀ time duration, (∀ k, (requests k).duration ≤ duration) →
    (∀ k, time ≤ requestedAt requests now k → (requests k).healthCheck = true) →
      time + duration ≤ service.deadline requests now → probed.result service = .ok ()

variable {service : TtsService} {requests : Nat → HealthRequest} {now : Nat}

theorem waits_of_first (hfirst : (requests 0).healthCheck = true) :
    Waits service requests now ⟨true, 0, now + (requests 0).duration⟩ where
  result := iff_of_true rfl ⟨0, hfirst, fun _ _ hlt => absurd hlt (Nat.not_lt_zero _)⟩
  ends := rfl
  last := Nat.zero_le _
  late error herror := by cases herror
  soon duration lag _ _ := by
    show loopStart requests now ≤ _
    rw [deadline]
    omega
  found _ _ _ _ _ := rfl

theorem waits_of_ran (hfirst : (requests 0).healthCheck = false) {last : Nat} {ok : Bool}
    (hran : Ran (startupAttempts requests) (fun i => endedAt (startupAttempts requests) (loopStart requests now) i
      < service.deadline requests now) last ok) :
    Waits service requests now
      ⟨ok, last + 1, endedAt (startupAttempts requests) (loopStart requests now) last⟩ := by
  have hlength : ∀ i, endedAt (startupAttempts requests) (loopStart requests now) i < service.deadline requests now →
      i < service.startupTimeoutMs.toNat / 250 + 1 := by
    intro i hi
    have hstarted := le_startedAt (startupAttempts requests) (loopStart requests now)
      (fun i => Nat.le_add_right (millis 250) _) i
    rw [endedAt, deadline] at hi
    simp only [millis] at hi hstarted
    omega
  refine ⟨?_, rfl, Nat.succ_le_succ (hran.le hlength), fun error herror => ?_, ?_, ?_⟩
  · rw [Probed.result_eq_ok, hran.ok_iff]
    constructor
    · rintro ⟨k, hk, hmore⟩
      refine ⟨k + 1, hk, fun j hpos hj => ?_⟩
      obtain ⟨j, rfl⟩ := Nat.exists_eq_add_of_le' hpos
      exact hmore j (Nat.lt_of_succ_lt_succ hj)
    · rintro ⟨k, hk, hmore⟩
      cases k with
      | zero =>
        rw [hfirst] at hk
        cases hk
      | succ k => exact ⟨k, hk, fun j hj => hmore (j + 1) (Nat.succ_pos j) (Nat.succ_lt_succ hj)⟩
  · obtain ⟨hfalse, htext⟩ := Probed.result_eq_error herror
    exact ⟨htext, Nat.not_lt.1 (hran.stops hfalse)⟩
  · intro duration lag hduration hlag
    have hended := hran.endedAt_le (fun i => hduration (i + 1)) (fun i => Nat.add_le_add_left (hlag (i + 1)) _)
      (Nat.le_add_right _ _) fun i hi => Nat.le_of_lt hi
    rwa [← Nat.add_assoc] at hended
  · intro time duration hduration hhealthy hdeadline
    refine Probed.result_eq_ok.2 (hran.found time (fun i hi => hhealthy (i + 1) hi) fun i hi => ?_)
    have hended : endedAt (startupAttempts requests) (loopStart requests now) i
        ≤ startedAt (startupAttempts requests) (loopStart requests now) i + duration :=
      Nat.add_le_add_left (hduration (i + 1)) _
    omega

end TtsService

/-- Whatever the service answers and however long it takes, the start of the bridge makes a bounded number of
requests, finds the service exactly if it answers one of them, misses none that is healthy from some time before
the deadline on, and gives up soon after the deadline and not before. -/
theorem startup_waits (service : TtsService) (requests : Nat → HealthRequest) (now : Nat) :
    service.Waits requests now (ensureServerReadyStartup service requests now) := by
  unfold ensureServerReadyStartup
  by_cases hfirst : (requests 0).healthCheck = true
  · simp only [if_pos hfirst]
    exact TtsService.waits_of_first hfirst
  · obtain ⟨last, ok, hran, hloop⟩ := TtsService.startupLoop_ran requests (service.deadline requests now)
      (TtsService.loopStart requests now) 0 fun _ hlt => absurd hlt (Nat.not_lt_zero _)
    simp only [if_neg hfirst]
    rw [show startupLoop requests (now + (requests 0).duration + millis service.startupTimeoutMs.toNat) 1
      (now + (requests 0).duration) = _ from hloop]
    exact TtsService.waits_of_ran (Bool.eq_false_of_not_eq_true hfirst) hran

/-! ### The burst after a failure -/

namespace PocketTtsRuntime

variable {r : PocketTtsRuntime} {t : Nat}

end PocketTtsRuntime

end MumbleSip
