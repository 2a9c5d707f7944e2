import MumbleSip.Audio.Mixer
import MumbleSip.Lib.Checked
import MumbleSip.Session.Intro
import Mathlib.Data.Rat.Floor

/-!
# The settings of a call

What `on_incoming_call` and the audio bridge compute from the configuration, in the widths they compute it in.
`validate` looks at the number of calls only, so the other fields are whatever their types hold. A `usize` has
64 bits. A computation that panics has no result.
-/

namespace MumbleSip

structure SipSection where
  maxConcurrentCalls : UInt32 := 10

structure AudioSection where
  sampleRate : UInt32 := 48000
  jitterBufferMs : UInt32 := 60
  introReplayAfterDays : UInt64 := 30

structure Config where
  sip : SipSection := {}
  audio : AudioSection := {}

def SipSection.validate (sip : SipSection) : Except String Unit :=
  if sip.maxConcurrentCalls ≥ 1 then .ok ()
  else .error ("sip.max_concurrent_calls must be 1 or greater (got " ++ toString sip.maxConcurrentCalls ++ ")")

def Config.validate (config : Config) : Except String Unit := do
  config.sip.validate
  .ok ()

/-- `samples_per_frame`, in `u32` -/
def samplesPerFrame (sampleRate : UInt32) : Option Nat := do
  let samples ← Checked.mul 32 sampleRate.toNat frameDurationMs
  Checked.div samples 1000

/-- `frame_samples` of the bridge, in `usize` -/
def bridgeFrameSamples (sampleRate : UInt32) : Option Nat := do
  let samples ← Checked.mul 64 sampleRate.toNat frameDurationMs
  Checked.div samples 1000

/-- `max_decode_samples` -/
def maxDecodeSamples (sampleRate : UInt32) (frameSamples : Nat) : Option Nat := do
  let samples ← Checked.mul 64 sampleRate.toNat 120
  let samples ← Checked.div samples 1000
  some (max samples frameSamples)

/-- `jitter_frames` -/
def jitterFrames (jitterBufferMs : UInt32) : Option Nat := do
  let frames ← Checked.div jitterBufferMs.toNat frameDurationMs
  some (max frames 2)

/-- The capacities that `mpsc::channel` takes: not zero, and at most `usize::MAX >> 3`. -/
def channelCapacity (capacity : Nat) : Option Nat :=
  if 0 < capacity ∧ capacity ≤ 2305843009213693951 then some capacity else none

/-- `sound_duration` of a sound with so many samples, in seconds. `Duration::from_secs_f64` takes finite values
below 2⁶⁴, and what is divided by zero is not finite. -/
def soundDuration (samples : Nat) (sampleRate : UInt32) : Option ℚ :=
  if sampleRate = 0 then none
  else
    let secs : ℚ := samples / sampleRate.toNat
    if secs < 18446744073709551616 then some secs else none

/-- A capacity that `HeapRb::new` takes: it panics on zero. -/
def ringCapacity (capacity : Nat) : Option Nat := if 0 < capacity then some capacity else none

structure CallSettings where
  introReplaySecs : Nat
  samplesPerFrame : Nat
  jitterFrames : Nat
  queueCapacity : Nat
  bufferSamples : Nat
  introDuration : ℚ
  frameSamples : Nat
  maxDecodeSamples : Nat
  maxPacketsPerSpeaker : Nat

/-- The arithmetic of a call that plays the intro, up to the tasks of the bridge. -/
def callSettings (config : Config) (intro : Pcm) : Option CallSettings := do
  let introReplaySecs ← Checked.mul 64 config.audio.introReplayAfterDays.toNat secsPerDay.toNat
  let samplesPerFrame ← samplesPerFrame config.audio.sampleRate
  let jitterFrames ← jitterFrames config.audio.jitterBufferMs
  let queueCapacity ← Checked.mul 64 jitterFrames config.sip.maxConcurrentCalls.toNat
  let bufferSamples ← Checked.div config.audio.sampleRate.toNat 5
  let bufferSamples ← ringCapacity bufferSamples
  let queueCapacity ← channelCapacity queueCapacity
  let introDuration ← soundDuration intro.length config.audio.sampleRate
  let frameSamples ← bridgeFrameSamples config.audio.sampleRate
  let maxDecodeSamples ← maxDecodeSamples config.audio.sampleRate frameSamples
  let packets ← Checked.mul 64 jitterFrames 2
  some ⟨introReplaySecs, samplesPerFrame, jitterFrames, queueCapacity, bufferSamples, introDuration,
    frameSamples, maxDecodeSamples, max packets 4⟩

/-- Nothing overflows, divides by zero or is out of range; the session and the bridge have the same frame, which
is not empty and fits into the ring buffer. -/
def Config.SettingsSafe (config : Config) (intro : Pcm) : Prop :=
  ∃ settings, callSettings config intro = some settings ∧
    settings.samplesPerFrame = settings.frameSamples ∧ 1 ≤ settings.samplesPerFrame ∧
    settings.samplesPerFrame ≤ settings.bufferSamples

/-! ### The computations one by one -/

theorem validate_eq_ok {config : Config} :
    config.validate = .ok () ↔ 1 ≤ config.sip.maxConcurrentCalls.toNat := by
  have hle : config.sip.maxConcurrentCalls ≥ 1 ↔ 1 ≤ config.sip.maxConcurrentCalls.toNat :=
    UInt32.le_iff_toNat_le
  unfold Config.validate SipSection.validate
  by_cases h : config.sip.maxConcurrentCalls ≥ 1
  · rw [if_pos h]
    exact iff_of_true rfl (hle.1 h)
  · rw [if_neg h]
    constructor
    · intro herror
      cases herror
    · intro hpos
      exact absurd (hle.2 hpos) h

theorem samplesPerFrame_eq_some {sampleRate : UInt32} {samples : Nat} :
    samplesPerFrame sampleRate = some samples ↔ sampleRate.toNat ≤ 429496729 ∧ samples = sampleRate.toNat * 10 / 1000 := by
  unfold samplesPerFrame
  rw [Option.bind_eq_bind, Option.bind_eq_some_iff]
  constructor
  · rintro ⟨product, hproduct, hsamples⟩
    obtain ⟨hlt, rfl⟩ := Checked.mul_eq_some.1 hproduct
    rw [Checked.div_of_pos _ (by decide)] at hsamples
    refine ⟨?_, (Option.some.inj hsamples).symm⟩
    unfold frameDurationMs at hlt
    omega
  · rintro ⟨hle, rfl⟩
    exact ⟨_, Checked.mul_of_le hle (Nat.le_refl _) (by decide), Checked.div_of_pos _ (by decide)⟩

theorem bridgeFrameSamples_eq (sampleRate : UInt32) :
    bridgeFrameSamples sampleRate = some (sampleRate.toNat * 10 / 1000) := by
  unfold bridgeFrameSamples
  rw [Checked.mul_of_le (Nat.le_of_lt sampleRate.toNat_lt) (Nat.le_refl _) (by decide), Option.bind_eq_bind,
    Option.bind_some, Checked.div_of_pos _ (by decide)]
  rfl

theorem maxDecodeSamples_eq (sampleRate : UInt32) (frameSamples : Nat) :
    maxDecodeSamples sampleRate frameSamples = some (max (sampleRate.toNat * 120 / 1000) frameSamples) := by
  unfold maxDecodeSamples
  rw [Checked.mul_of_le (Nat.le_of_lt sampleRate.toNat_lt) (Nat.le_refl _) (by decide), Option.bind_eq_bind,
    Option.bind_some, Checked.div_of_pos _ (by decide), Option.bind_some]

theorem jitterFrames_eq (jitterBufferMs : UInt32) :
    jitterFrames jitterBufferMs = some (max (jitterBufferMs.toNat / 10) 2) := by
  unfold jitterFrames
  rw [Checked.div_of_pos _ (by decide), Option.bind_eq_bind, Option.bind_some]
  rfl

theorem channelCapacity_of_range {capacity : Nat} (hpos : 0 < capacity) (hle : capacity ≤ 2305843009213693951) :
    channelCapacity capacity = some capacity := if_pos ⟨hpos, hle⟩

theorem ringCapacity_of_pos {capacity : Nat} (hpos : 0 < capacity) : ringCapacity capacity = some capacity :=
  if_pos hpos

theorem soundDuration_of_pos {samples : Nat} {sampleRate : UInt32} (hrate : 0 < sampleRate.toNat)
    (hsamples : samples < 18446744073709551616) :
    soundDuration samples sampleRate = some ((samples : ℚ) / sampleRate.toNat) := by
  have hzero : ¬ sampleRate = 0 := by
    rintro rfl
    exact Nat.lt_irrefl 0 hrate
  have hle : (samples : ℚ) / sampleRate.toNat ≤ samples :=
    div_le_self (Nat.cast_nonneg _) (Nat.one_le_cast.2 hrate)
  have hlt : (samples : ℚ) < 18446744073709551616 := by exact_mod_cast hsamples
  unfold soundDuration
  rw [if_neg hzero]
  exact if_pos (lt_of_le_of_lt hle hlt)

/-! ### All of them -/

/-- The settings, where there are any. -/
def Config.settings (config : Config) (introDuration : ℚ) : CallSettings :=
  let rate := config.audio.sampleRate.toNat
  let jitterFrames := max (config.audio.jitterBufferMs.toNat / 10) 2
  { introReplaySecs := config.audio.introReplayAfterDays.toNat * 86400
    samplesPerFrame := rate * 10 / 1000
    jitterFrames := jitterFrames
    queueCapacity := jitterFrames * config.sip.maxConcurrentCalls.toNat
    bufferSamples := rate / 5
    introDuration := introDuration
    frameSamples := rate * 10 / 1000
    maxDecodeSamples := max (rate * 120 / 1000) (rate * 10 / 1000)
    maxPacketsPerSpeaker := max (jitterFrames * 2) 4 }

theorem queueCapacity_range {config : Config} (hvalid : config.validate = .ok ()) :
    0 < max (config.audio.jitterBufferMs.toNat / 10) 2 * config.sip.maxConcurrentCalls.toNat ∧
      max (config.audio.jitterBufferMs.toNat / 10) 2 * config.sip.maxConcurrentCalls.toNat
        ≤ 2305843009213693951 := by
  have hcalls := validate_eq_ok.1 hvalid
  have hcallsLt := config.sip.maxConcurrentCalls.toNat_lt
  have hjitter : max (config.audio.jitterBufferMs.toNat / 10) 2 ≤ 429496729 := by
    have hlt := config.audio.jitterBufferMs.toNat_lt
    omega
  constructor
  · exact Nat.mul_pos (Nat.lt_of_lt_of_le (by decide) (Nat.le_max_right _ _)) hcalls
  · calc max (config.audio.jitterBufferMs.toNat / 10) 2 * config.sip.maxConcurrentCalls.toNat
        ≤ 429496729 * 4294967295 := Nat.mul_le_mul hjitter (by omega)
      _ ≤ 2305843009213693951 := by decide

theorem callSettings_eq {config : Config} (hvalid : config.validate = .ok ()) (intro : Pcm) :
    callSettings config intro
      = (Checked.mul 64 config.audio.introReplayAfterDays.toNat 86400).bind fun _ =>
        (samplesPerFrame config.audio.sampleRate).bind fun _ =>
          (ringCapacity (config.audio.sampleRate.toNat / 5)).bind fun _ =>
            (soundDuration intro.length config.audio.sampleRate).map config.settings := by
  obtain ⟨hpos, hle⟩ := queueCapacity_range hvalid
  have hqueue := Checked.mul_of_lt (Nat.lt_of_le_of_lt hle (show 2305843009213693951 < 2 ^ 64 by decide))
  have hpackets : Checked.mul 64 (max (config.audio.jitterBufferMs.toNat / 10) 2) 2
      = some (max (config.audio.jitterBufferMs.toNat / 10) 2 * 2) := by
    apply Checked.mul_of_le (m := 429496729) _ (Nat.le_refl 2) (by decide)
    have hlt := config.audio.jitterBufferMs.toNat_lt
    omega
  have hbuffer := Checked.div_of_pos config.audio.sampleRate.toNat (show 0 < 5 by decide)
  unfold callSettings
  simp only [jitterFrames_eq, hqueue, hbuffer, channelCapacity_of_range hpos hle, bridgeFrameSamples_eq,
    maxDecodeSamples_eq, hpackets, Option.bind_eq_bind, Option.bind_some]
  cases hreplay : Checked.mul 64 config.audio.introReplayAfterDays.toNat 86400 with
  | none =>
    show (Checked.mul 64 config.audio.introReplayAfterDays.toNat 86400).bind _ = _
    rw [hreplay]
    rfl
  | some secs =>
    show (Checked.mul 64 config.audio.introReplayAfterDays.toNat 86400).bind _ = _
    rw [hreplay, (Checked.mul_eq_some.1 hreplay).2, Option.bind_some, Option.bind_some]
    cases hframe : samplesPerFrame config.audio.sampleRate with
    | none => rfl
    | some samples =>
      rw [(samplesPerFrame_eq_some.1 hframe).2, Option.bind_some, Option.bind_some]
      by_cases hring : 0 < config.audio.sampleRate.toNat / 5
      · rw [ringCapacity_of_pos hring, Option.bind_some, Option.bind_some]
        cases soundDuration intro.length config.audio.sampleRate with
        | none => rfl
        | some duration => rfl
      · rw [ringCapacity, if_neg hring]
        rfl

/-- What the mixed decoder is spawned with. -/
def Config.mixer (config : Config) : MixerConfig where
  sampleRate := config.audio.sampleRate.toNat
  jitterFrames := max (config.audio.jitterBufferMs.toNat / 10) 2

/-- Where there are settings, they are those of the mixed decoder and of the intro. -/
theorem callSettings_agree {config : Config} (hvalid : config.validate = .ok ()) {intro : Pcm}
    {settings : CallSettings} (hsettings : callSettings config intro = some settings) :
    (settings.frameSamples = config.mixer.frameSamples ∧ settings.samplesPerFrame = config.mixer.frameSamples ∧
      settings.maxDecodeSamples = config.mixer.maxDecodeSamples ∧
      settings.maxPacketsPerSpeaker = config.mixer.maxPacketsPerSpeaker) ∧
    settings.introReplaySecs = (config.audio.introReplayAfterDays * secsPerDay).toNat := by
  rw [callSettings_eq hvalid, Option.bind_eq_some_iff] at hsettings
  obtain ⟨secs, hsecs, hrest⟩ := hsettings
  obtain ⟨samples, _, hring⟩ := Option.bind_eq_some_iff.1 hrest
  obtain ⟨capacity, _, hduration⟩ := Option.bind_eq_some_iff.1 hring
  obtain ⟨duration, _, rfl⟩ := Option.map_eq_some_iff.1 hduration
  refine ⟨⟨rfl, rfl, rfl, rfl⟩, ?_⟩
  have hlt : config.audio.introReplayAfterDays.toNat * secsPerDay.toNat < 2 ^ 64 :=
    (Checked.mul_eq_some.1 hsecs).1
  rw [UInt64.toNat_mul, Nat.mod_eq_of_lt hlt]
  rfl

theorem settingsSafe_of_range {config : Config} (hvalid : config.validate = .ok ()) {intro : Pcm}
    (hintro : intro.length < 2 ^ 62) (hlow : 100 ≤ config.audio.sampleRate.toNat)
    (hhigh : config.audio.sampleRate.toNat ≤ 429496729)
    (hdays : config.audio.introReplayAfterDays.toNat ≤ 213503982334601) : config.SettingsSafe intro := by
  have hreplay := Checked.mul_of_le hdays (Nat.le_refl 86400) (show 213503982334601 * 86400 < 2 ^ 64 by decide)
  have hframe := samplesPerFrame_eq_some.2 ⟨hhigh, rfl⟩
  have hring := ringCapacity_of_pos (show 0 < config.audio.sampleRate.toNat / 5 by omega)
  have hduration := soundDuration_of_pos (Nat.lt_of_lt_of_le (by decide) hlow)
    (Nat.lt_trans hintro (by decide))
  refine ⟨config.settings (intro.length / config.audio.sampleRate.toNat), ?_, rfl, ?_, ?_⟩
  · rw [callSettings_eq hvalid, hreplay, hframe, hring, hduration]
    rfl
  · show 1 ≤ config.audio.sampleRate.toNat * 10 / 1000
    omega
  · show config.audio.sampleRate.toNat * 10 / 1000 ≤ config.audio.sampleRate.toNat / 5
    omega

theorem range_of_settingsSafe {config : Config} (hvalid : config.validate = .ok ()) {intro : Pcm}
    (h : config.SettingsSafe intro) : 100 ≤ config.audio.sampleRate.toNat ∧
      config.audio.sampleRate.toNat ≤ 429496729 ∧
      config.audio.introReplayAfterDays.toNat ≤ 213503982334601 := by
  obtain ⟨settings, hsettings, _, hpos, _⟩ := h
  rw [callSettings_eq hvalid, Option.bind_eq_some_iff] at hsettings
  obtain ⟨secs, hsecs, hrest⟩ := hsettings
  obtain ⟨samples, hsamples, hring⟩ := Option.bind_eq_some_iff.1 hrest
  obtain ⟨capacity, _, hduration⟩ := Option.bind_eq_some_iff.1 hring
  obtain ⟨duration, _, rfl⟩ := Option.map_eq_some_iff.1 hduration
  have hframe : 1 ≤ config.audio.sampleRate.toNat * 10 / 1000 := hpos
  have hdays := (Checked.mul_eq_some.1 hsecs).1
  refine ⟨?_, (samplesPerFrame_eq_some.1 hsamples).1, ?_⟩ <;> omega

/-- The settings of a valid configuration are safe if and only if a frame has a sample, ten times the rate is
a `u32`, and the days before the intro is played again are a `u64` of seconds. The intro is a vector of `i16`,
of `isize::MAX` bytes at most. -/
theorem settingsSafe_iff (config : Config) (hvalid : config.validate = .ok ()) (intro : Pcm)
    (hintro : intro.length < 2 ^ 62) :
    config.SettingsSafe intro ↔ 100 ≤ config.audio.sampleRate.toNat ∧
      config.audio.sampleRate.toNat ≤ 429496729 ∧
      config.audio.introReplayAfterDays.toNat ≤ 213503982334601 :=
  ⟨range_of_settingsSafe hvalid, fun h => settingsSafe_of_range hvalid hintro h.1 h.2.1 h.2.2⟩

/-- The default configuration. -/
theorem settingsSafe_default : Config.SettingsSafe {} [1, -1] :=
  (settingsSafe_iff {} rfl [1, -1] (by decide)).2 ⟨by decide, by decide, by decide⟩

/-- Valid configurations with a rate of zero, a rate below one sample a frame, a rate whose product overflows,
and too many days. -/
theorem settingsSafe_fails :
    ((Config.mk {} { sampleRate := 0 }).validate = .ok () ∧
      ¬ (Config.mk {} { sampleRate := 0 }).SettingsSafe [1, -1]) ∧
    ((Config.mk {} { sampleRate := 99 }).validate = .ok () ∧
      ¬ (Config.mk {} { sampleRate := 99 }).SettingsSafe [1, -1]) ∧
    ((Config.mk {} { sampleRate := 429496730 }).validate = .ok () ∧
      ¬ (Config.mk {} { sampleRate := 429496730 }).SettingsSafe [1, -1]) ∧
    ((Config.mk {} { introReplayAfterDays := 213503982334602 }).validate = .ok () ∧
      ¬ (Config.mk {} { introReplayAfterDays := 213503982334602 }).SettingsSafe [1, -1]) := by
  refine ⟨⟨rfl, ?_⟩, ⟨rfl, ?_⟩, ⟨rfl, ?_⟩, ⟨rfl, ?_⟩⟩
  all_goals
    intro hsafe
    have hrange := range_of_settingsSafe rfl hsafe
    revert hrange
    decide

end MumbleSip
