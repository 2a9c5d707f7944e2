import MumbleSip.Audio.Conservation
import MumbleSip.Lib.Observer

/-!
# Speakers in the mixer

What a speaker puts into the frames follows from its own packets and the times of the ticks: neither the other
speakers nor the sounds nor the order of a tick make a difference. A speaker that sends nothing has been played
after a bounded number of ticks, and then the next tick after its idle timeout removes it.
-/

namespace MumbleSip

open Transition

/-- What concerns a speaker. -/
inductive SpeakerInput (δ : Type)
  | tick (now : Nat)
  | packet (opusData : Bytes) (decoder : Option δ) (now : Nat)

def MixerAction.heardBy {δ : Type} (sessionId : UInt32) : MixerAction δ → Option (SpeakerInput δ)
  | .tick _ now => some (.tick now)
  | .packet sessionId' opusData decoder now =>
    if sessionId' = sessionId then some (.packet opusData decoder now) else none
  | _ => none

/-- A speaker by itself, and the samples that it has put into frames. -/
structure Speaker (δ : Type) where
  state : Option (SpeakerState δ)
  played : Pcm

variable {δ : Type} (opus : Opus δ) (config : MixerConfig)

/-- The state without the number of frames that were mixed before. -/
def SpeakerState.unplaced (state : SpeakerState δ) : SpeakerState δ :=
  { state with history := { state.history with createdAt := 0 } }

namespace Speaker

def tick (speaker : Speaker δ) (now : Nat) : Speaker δ :=
  match speaker.state with
  | none => speaker
  | some state =>
    let state := state.fill opus config.frameSamples
    { state := if state.isStale now then none else some (state.mix config.frameSamples)
      played := speaker.played ++ state.pendingPcm.take config.frameSamples }

def packet (speaker : Speaker δ) (opusData : Bytes) (decoder : Option δ) (now : Nat) : Speaker δ :=
  match speaker.state, decoder with
  | some state, _ => { speaker with state := some (state.receive config.maxPacketsPerSpeaker opusData now) }
  | none, some decoder =>
    { speaker with
      state := some (SpeakerState.receive config.maxPacketsPerSpeaker
        ⟨decoder, [], [], now, ⟨decoder, 0, [], []⟩⟩ opusData now) }
  | none, none => speaker

def next (speaker : Speaker δ) : SpeakerInput δ → Speaker δ
  | .tick now => speaker.tick opus config now
  | .packet opusData decoder now => speaker.packet config opusData decoder now

end Speaker

/-- A speaker of the mixer. -/
def Mixer.speaker (m : Mixer δ) (sessionId : UInt32) : Speaker δ where
  state := (m.speakers.lookup sessionId).map SpeakerState.unplaced
  played := m.emitted.flatMap fun frame => frame.part sessionId

variable {opus config}

/-! ### The history of a speaker is not read -/

namespace SpeakerState

variable {state : SpeakerState δ} {n : Nat}

theorem unplaced_decodeLoop (packets : List Bytes) (state : SpeakerState δ) :
    (state.decodeLoop opus n packets).unplaced = state.unplaced.decodeLoop opus n packets := by
  induction packets generalizing state with
  | nil => rfl
  | cons opusData packets ih =>
    rw [decodeLoop, decodeLoop]
    show (if state.pendingPcm.length < n then _ else state).unplaced
      = if state.pendingPcm.length < n then _ else state.unplaced
    split
    · rw [show state.unplaced.decoder = state.decoder from rfl]
      cases opus.decode state.decoder opusData with
      | mk decoded decoder =>
        cases decoded with
        | some decoded => exact ih _
        | none => rfl
    · rfl

theorem unplaced_fill : (state.fill opus n).unplaced = state.unplaced.fill opus n :=
  unplaced_decodeLoop _ _

theorem unplaced_receive (maxPackets : Nat) (state : SpeakerState δ) (opusData : Bytes) (now : Nat) :
    (state.receive maxPackets opusData now).unplaced = state.unplaced.receive maxPackets opusData now := by
  have hevict : (state.evict maxPackets).unplaced = state.unplaced.evict maxPackets := by
    unfold evict
    show _ = if maxPackets ≤ state.pendingPackets.length then _ else _
    split
    · rw [show state.unplaced.pendingPackets = state.pendingPackets from rfl]
      cases state.pendingPackets <;> rfl
    · rfl
  rw [receive, receive, ← hevict]
  rfl

end SpeakerState

/-! ### A speaker of the mixer by itself -/

namespace Mixer

variable {m : Mixer δ} {sessionId : UInt32} {order : List UInt32} {now : Nat}

theorem lookup_parts_none (hnone : m.speakers.lookup sessionId = none) :
    (m.parts opus config order).lookup sessionId = none := by
  rw [List.lookup_eq_none_iff]
  rintro ⟨sessionId', part⟩ hmem
  obtain ⟨sessionId'', _, hpart⟩ := List.mem_filterMap.1 hmem
  rw [lookup_filled] at hpart
  cases hstate : m.speakers.lookup sessionId'' with
  | none =>
    rw [hstate] at hpart
    cases hpart
  | some state =>
    have hne : sessionId ≠ sessionId'' := by
      rintro rfl
      rw [hnone] at hstate
      cases hstate
    rw [hstate, Option.map_some] at hpart
    dsimp only at hpart
    split at hpart
    · cases hpart
    · cases hpart
      exact bne_iff_ne.2 hne

theorem mem_staleSpeakers {state : SpeakerState δ} (henabled : m.enabled (.tick order now))
    (hstate : m.speakers.lookup sessionId = some state) :
    sessionId ∈ m.staleSpeakers opus config order now
      ↔ (state.fill opus config.frameSamples).isStale now = true := by
  rw [staleSpeakers, List.mem_filter, lookup_filled, hstate]
  exact and_iff_right (mem_order henabled hstate)

theorem speaker_tick (henabled : m.enabled (.tick order now)) (sessionId : UInt32) :
    (m.tick opus config order now).speaker sessionId = (m.speaker sessionId).tick opus config now := by
  have hplayed : (m.tick opus config order now).emitted.flatMap (fun frame => frame.part sessionId)
      = (m.speaker sessionId).played ++ ((m.parts opus config order).lookup sessionId).getD [] := by
    rw [← flatMap_part_frame, speaker, ← List.flatMap_append]
    rfl
  have hlookup : (m.tick opus config order now).speakers.lookup sessionId
      = if sessionId ∈ m.staleSpeakers opus config order now then none
        else (m.speakers.lookup sessionId).map fun state =>
          (state.fill opus config.frameSamples).mix config.frameSamples := by
    simp only [tick, FiniteMap.lookup_eraseAll, FiniteMap.lookup_mapValues, lookup_filled, Option.map_map]
    rfl
  rw [speaker, hplayed, hlookup]
  cases hstate : m.speakers.lookup sessionId with
  | none =>
    rw [lookup_parts_none hstate, Option.map_none, ite_self, Option.getD_none, List.append_nil, Speaker.tick,
      speaker, hstate]
    rfl
  | some state =>
    have hstale : sessionId ∈ m.staleSpeakers opus config order now
        ↔ (state.fill opus config.frameSamples).isStale now = true := mem_staleSpeakers henabled hstate
    rw [lookup_parts (mem_order henabled hstate) hstate, Speaker.tick, speaker, hstate]
    dsimp only [Option.map_some]
    rw [← SpeakerState.unplaced_fill]
    generalize state.fill opus config.frameSamples = state at hstale ⊢
    by_cases hidle : state.isStale now = true
    · have hidle' : state.unplaced.isStale now = true := hidle
      rw [if_pos (hstale.2 hidle), if_pos hidle']
      rfl
    · have hidle' : ¬state.unplaced.isStale now = true := hidle
      rw [if_neg (mt hstale.1 hidle), if_neg hidle']
      rfl

theorem speaker_packet (sessionId sessionId' : UInt32) (opusData : Bytes) (decoder : Option δ) :
    (m.packet config sessionId' opusData decoder now).speaker sessionId
      = if sessionId' = sessionId then (m.speaker sessionId).packet config opusData decoder now
        else m.speaker sessionId := by
  have hother : ∀ state', sessionId' ≠ sessionId →
      Mixer.speaker { m with speakers := m.speakers.insert sessionId' state' } sessionId = m.speaker sessionId := by
    intro state' hne
    rw [speaker, FiniteMap.lookup_insert, if_neg (Ne.symm hne)]
    rfl
  have hsame : ∀ state',
      Mixer.speaker { m with speakers := m.speakers.insert sessionId state' } sessionId
        = { m.speaker sessionId with state := some state'.unplaced } := by
    intro state'
    rw [speaker, FiniteMap.lookup_insert, if_pos rfl]
    rfl
  unfold Mixer.packet
  by_cases heq : sessionId' = sessionId
  · subst sessionId'
    rw [if_pos rfl]
    cases hstate : m.speakers.lookup sessionId with
    | some state =>
      have hspeaker : (m.speaker sessionId).state = some state.unplaced := by rw [speaker, hstate, Option.map_some]
      dsimp only
      unfold Speaker.packet
      rw [hsame, SpeakerState.unplaced_receive, hspeaker]
    | none =>
      have hspeaker : (m.speaker sessionId).state = none := by rw [speaker, hstate, Option.map_none]
      unfold Speaker.packet
      rw [hspeaker]
      cases decoder with
      | some decoder =>
        dsimp only
        rw [hsame, SpeakerState.unplaced_receive]
        rfl
      | none => rfl
  · rw [if_neg heq]
    split
    · exact hother _ heq
    · split
      · exact hother _ heq
      · rfl

theorem observes_speaker (sessionId : UInt32) :
    (mixedDecoder opus config).Observes (MixerAction.heardBy sessionId) (Mixer.speaker · sessionId)
      (Speaker.next opus config) where
  update m a input hen hseen := by
    cases a with
    | tick order now =>
      cases hseen
      exact speaker_tick hen sessionId
    | packet sessionId' opusData decoder now =>
      rw [MixerAction.heardBy] at hseen
      split at hseen
      · rename_i heq
        cases hseen
        exact (speaker_packet _ _ _ _).trans (if_pos heq)
      · cases hseen
    | _ => cases hseen
  keep m a hen hseen := by
    cases a with
    | tick order now => cases hseen
    | packet sessionId' opusData decoder now =>
      rw [MixerAction.heardBy] at hseen
      split at hseen
      · cases hseen
      · rename_i hne
        exact (speaker_packet _ _ _ _).trans (if_neg hne)
    | _ => rfl

end Mixer

/-- Two runs with the same ticks and the same packets of a speaker: it is in the same state after both, and has put
the same samples into the frames, whatever the other speakers have sent, whatever sounds there were and in which
order the ticks went through the speakers. -/
theorem speakers_independent {as as' : List (MixerAction δ)} {m m' : Mixer δ}
    (hrun : (mixedDecoder opus config).run System.anyStep .start as = some m)
    (hrun' : (mixedDecoder opus config).run System.anyStep .start as' = some m') (sessionId : UInt32)
    (hsame : as.filterMap (MixerAction.heardBy sessionId) = as'.filterMap (MixerAction.heardBy sessionId)) :
    m.speaker sessionId = m'.speaker sessionId :=
  (Mixer.observes_speaker sessionId).run_eq rfl hrun hrun' hsame

/-- A speaker with a packet before and after it, and a chime, between those of another. -/
theorem speakers_independent_duet : ∃ m m', (mixedDecoder silentOpus ⟨8000, 3⟩).run System.anyStep .start
      [.packet 6 [0xF0] (some ()) 0, .packet 5 [0xF0] (some ()) 0, .sound [1, -1], .tick [6, 5] 0, .packet 6 [] none 1,
        .tick [5, 6] 1] = some m ∧
    (mixedDecoder silentOpus ⟨8000, 3⟩).run System.anyStep .start
      [.packet 5 [0xF0] (some ()) 0, .tick [5] 0, .tick [5] 1] = some m' ∧
    m.emitted.length = 1 ∧ (m.speaker 5).played.length = 80 ∧ m.speaker 5 = m'.speaker 5 := by
  have hsome : (((mixedDecoder silentOpus ⟨8000, 3⟩).run System.anyStep .start
      [.packet 6 [0xF0] (some ()) 0, .packet 5 [0xF0] (some ()) 0, .sound [1, -1], .tick [6, 5] 0, .packet 6 [] none 1,
        .tick [5, 6] 1]).any fun m => decide (m.emitted.length = 1) && decide ((m.speaker 5).played.length = 80))
      = true := by decide
  have hsome' : ((mixedDecoder silentOpus ⟨8000, 3⟩).run System.anyStep .start
      [.packet 5 [0xF0] (some ()) 0, .tick [5] 0, .tick [5] 1]).isSome = true := by decide
  obtain ⟨m, hrun, hdone⟩ := (Option.any_eq_true _ _).1 hsome
  obtain ⟨m', hrun'⟩ := Option.isSome_iff_exists.1 hsome'
  rw [Bool.and_eq_true, decide_eq_true_iff, decide_eq_true_iff] at hdone
  exact ⟨m, m', hrun, hrun', hdone.1, hdone.2, speakers_independent hrun hrun' 5 rfl⟩

/-! ### What is left to play -/

/-- The number of frames that hold what a packet decodes to. -/
def MixerConfig.packetFrames (config : MixerConfig) : Nat :=
  (config.maxDecodeSamples + config.frameSamples - 1) / config.frameSamples

theorem frames_add_le {n : Nat} (hn : 0 < n) (a b : Nat) :
    (a + b + n - 1) / n ≤ (a + n - 1) / n + (b + n - 1) / n := by
  have hceil : ∀ c, c ≤ (c + n - 1) / n * n := by
    intro c
    have hlt := Nat.lt_div_mul_add (a := c + n - 1) hn
    omega
  have ha := hceil a
  have hb := hceil b
  rw [← Nat.lt_succ_iff, Nat.div_lt_iff_lt_mul hn, Nat.succ_mul, Nat.add_mul]
  omega

theorem frames_sub {n : Nat} (hn : 0 < n) {a : Nat} (ha : 0 < a) :
    (a - n + n - 1) / n + 1 = (a + n - 1) / n := by
  have hrest : (a - n + n - 1) / n = (a - 1) / n := by
    by_cases hle : n ≤ a
    · rw [Nat.sub_add_cancel hle]
    · rw [Nat.div_eq_of_lt (by omega), Nat.div_eq_of_lt (by omega)]
  rw [hrest, ← Nat.add_div_right _ hn]
  congr 1
  omega

namespace SpeakerState

variable {state : SpeakerState δ} {n : Nat}

/-- What is pending, and what the packets that are pending decode to. -/
def remaining (opus : Opus δ) (state : SpeakerState δ) : Pcm :=
  state.pendingPcm ++ (opus.feed state.decoder state.pendingPackets).1

/-- The ticks that may pass until everything is played. -/
def turns (config : MixerConfig) (state : SpeakerState δ) : Nat :=
  state.pendingPackets.length * config.packetFrames
    + (state.pendingPcm.length + config.frameSamples - 1) / config.frameSamples

theorem remaining_decodeLoop (packets : List Bytes) (hpackets : state.pendingPackets = packets) :
    (state.decodeLoop opus n packets).remaining opus = state.remaining opus := by
  induction packets generalizing state with
  | nil => rfl
  | cons opusData packets ih =>
    have hfeed : state.remaining opus = state.pendingPcm
        ++ ((opus.decode state.decoder opusData).1.getD []
          ++ (opus.feed (opus.decode state.decoder opusData).2 packets).1) := by
      rw [remaining, hpackets, Opus.feed]
    rw [decodeLoop, hfeed]
    split
    · cases opus.decode state.decoder opusData with
      | mk decoded decoder =>
        cases decoded with
        | some decoded =>
          dsimp only
          rw [ih rfl, remaining, Option.getD_some, ← List.append_assoc]
          rfl
        | none => rfl
    · exact hfeed

theorem remaining_mix : state.pendingPcm.take n ++ (state.mix n).remaining opus = state.remaining opus := by
  show _ ++ (state.pendingPcm.drop n ++ _) = _
  rw [← List.append_assoc, List.take_append_drop]
  rfl

/-- A packet that is decoded takes away as many turns as its samples can add. -/
theorem turns_decodeLoop (hfits : opus.Fits config.maxDecodeSamples) (hframe : 0 < config.frameSamples)
    (packets : List Bytes) (hpackets : state.pendingPackets = packets) :
    (state.decodeLoop opus config.frameSamples packets).turns config ≤ state.turns config := by
  induction packets generalizing state with
  | nil => exact Nat.le_refl _
  | cons opusData packets ih =>
    have hturns : state.turns config = packets.length * config.packetFrames + config.packetFrames
        + (state.pendingPcm.length + config.frameSamples - 1) / config.frameSamples := by
      rw [turns, hpackets, List.length_cons, Nat.succ_mul]
    rw [decodeLoop]
    split
    · cases hdecode : opus.decode state.decoder opusData with
      | mk decoded decoder =>
        cases decoded with
        | some decoded =>
          have hlength : decoded.length ≤ config.maxDecodeSamples :=
            hfits state.decoder opusData decoded (by rw [hdecode])
          refine Nat.le_trans (ih rfl) ?_
          rw [hturns]
          show packets.length * config.packetFrames
            + ((state.pendingPcm ++ decoded).length + config.frameSamples - 1) / config.frameSamples ≤ _
          have hadd := frames_add_le hframe state.pendingPcm.length decoded.length
          have hpacket : (decoded.length + config.frameSamples - 1) / config.frameSamples ≤ config.packetFrames :=
            Nat.div_le_div_right (by omega)
          rw [List.length_append]
          omega
        | none =>
          rw [hturns]
          show packets.length * config.packetFrames + _ ≤ _
          exact Nat.add_le_add_right (Nat.le_add_right _ _) _
    · exact Nat.le_refl _

theorem length_decodeLoop_lt {packets : List Bytes} (hshort : state.pendingPcm.length < n) (hpackets : packets ≠ []) :
    (state.decodeLoop opus n packets).pendingPackets.length < packets.length := by
  obtain ⟨opusData, packets, rfl⟩ := List.exists_cons_of_ne_nil hpackets
  rw [decodeLoop, if_pos hshort, List.length_cons, Nat.lt_succ_iff]
  cases opus.decode state.decoder opusData with
  | mk decoded decoder =>
    cases decoded with
    | some decoded => exact length_pendingPackets_decodeLoop packets rfl
    | none => exact Nat.le_refl packets.length

theorem packetFrames_pos (hframe : 0 < config.frameSamples) : 0 < config.packetFrames := by
  have hle : config.frameSamples ≤ config.maxDecodeSamples := Nat.le_max_right _ _
  exact Nat.div_pos (by omega) hframe

/-- A tick takes a turn, until there is nothing left. -/
theorem turns_mix_fill (hfits : opus.Fits config.maxDecodeSamples) (hframe : 0 < config.frameSamples) :
    ((state.fill opus config.frameSamples).mix config.frameSamples).turns config ≤ state.turns config - 1 := by
  have hfill := turns_decodeLoop hfits hframe state.pendingPackets rfl
  have hmix : ((state.fill opus config.frameSamples).mix config.frameSamples).turns config
      = (state.fill opus config.frameSamples).pendingPackets.length * config.packetFrames
        + ((state.fill opus config.frameSamples).pendingPcm.length - config.frameSamples
          + config.frameSamples - 1) / config.frameSamples := by
    rw [turns, ← List.length_drop]
    rfl
  rw [hmix]
  by_cases hempty : (state.fill opus config.frameSamples).pendingPcm.length = 0
  · have hzero : (0 - config.frameSamples + config.frameSamples - 1) / config.frameSamples = 0 :=
      Nat.div_eq_of_lt (by omega)
    rw [hempty, hzero, Nat.add_zero]
    by_cases hpackets : state.pendingPackets = []
    · have hsame : state.fill opus config.frameSamples = state := by rw [fill, hpackets, decodeLoop]
      rw [hsame, hpackets, List.length_nil, Nat.zero_mul]
      exact Nat.zero_le _
    · have hshort : state.pendingPcm.length < config.frameSamples := by
        by_contra hfull
        obtain ⟨opusData, packets, hcons⟩ := List.exists_cons_of_ne_nil hpackets
        have hsame : state.fill opus config.frameSamples = state := by rw [fill, hcons, decodeLoop, if_neg hfull]
        rw [hsame] at hempty
        omega
      have hlt : (state.fill opus config.frameSamples).pendingPackets.length + 1 ≤ state.pendingPackets.length :=
        length_decodeLoop_lt hshort hpackets
      have hmul := Nat.mul_le_mul_right config.packetFrames hlt
      have hpos := packetFrames_pos hframe
      rw [Nat.succ_mul] at hmul
      apply Nat.le_sub_one_of_lt
      rw [turns]
      exact Nat.lt_of_lt_of_le (by omega) (Nat.le_add_right _ _)
  · have hsub := frames_sub hframe (Nat.pos_of_ne_zero hempty)
    rw [fill] at hsub ⊢
    rw [turns] at hfill
    omega

theorem eq_nil_of_turns (hframe : 0 < config.frameSamples) (hturns : state.turns config = 0) :
    state.pendingPackets = [] ∧ state.pendingPcm = [] := by
  have hpos := packetFrames_pos hframe
  rw [turns, Nat.add_eq_zero_iff, Nat.mul_eq_zero] at hturns
  refine ⟨List.eq_nil_of_length_eq_zero (hturns.1.resolve_right (by omega)), List.eq_nil_of_length_eq_zero ?_⟩
  have hlt := (Nat.div_eq_zero_iff_lt hframe).1 hturns.2
  omega

theorem Bounded.turns_le (h : state.Bounded config) :
    state.turns config ≤ (config.maxPacketsPerSpeaker + 1) * config.packetFrames := by
  have hpackets := Nat.mul_le_mul_right config.packetFrames h.1
  have hpcm : (state.pendingPcm.length + config.frameSamples - 1) / config.frameSamples ≤ config.packetFrames := by
    have hlt := h.2
    exact Nat.div_le_div_right (by omega)
  rw [turns, Nat.succ_mul]
  omega

end SpeakerState

/-! ### A speaker that sends nothing -/

namespace Speaker

variable {speaker : Speaker δ}

def remaining (opus : Opus δ) (speaker : Speaker δ) : Pcm := speaker.state.elim [] (SpeakerState.remaining opus)

def turns (config : MixerConfig) (speaker : Speaker δ) : Nat := speaker.state.elim 0 (SpeakerState.turns config)

theorem tick_none (hstate : speaker.state = none) (now : Nat) : speaker.tick opus config now = speaker := by
  unfold tick
  rw [hstate]

theorem tick_some {state : SpeakerState δ} (hstate : speaker.state = some state) (now : Nat) :
    speaker.tick opus config now =
      { state := if (state.fill opus config.frameSamples).isStale now then none
          else some ((state.fill opus config.frameSamples).mix config.frameSamples)
        played := speaker.played ++ (state.fill opus config.frameSamples).pendingPcm.take config.frameSamples } := by
  unfold tick
  rw [hstate]

theorem eq_nil_of_isStale {state : SpeakerState δ} {now : Nat} (hstale : state.isStale now = true) :
    state.pendingPcm = [] ∧ state.pendingPackets = [] := by
  rw [SpeakerState.isStale, Bool.and_eq_true, Bool.and_eq_true, List.isEmpty_iff, List.isEmpty_iff] at hstale
  exact hstale.1

theorem remaining_tick (speaker : Speaker δ) (now : Nat) :
    (speaker.tick opus config now).played ++ (speaker.tick opus config now).remaining opus
      = speaker.played ++ speaker.remaining opus := by
  cases hstate : speaker.state with
  | none => rw [tick_none hstate]
  | some state =>
    have hfill : (state.fill opus config.frameSamples).remaining opus = state.remaining opus :=
      SpeakerState.remaining_decodeLoop _ rfl
    rw [tick_some hstate, remaining, remaining, hstate, Option.elim_some, ← hfill,
      ← SpeakerState.remaining_mix (n := config.frameSamples), ← List.append_assoc]
    split
    · rename_i hstale
      obtain ⟨hpcm, hpackets⟩ := eq_nil_of_isStale hstale
      have hnone : ((state.fill opus config.frameSamples).mix config.frameSamples).remaining opus = [] := by
        show (state.fill opus config.frameSamples).pendingPcm.drop _
          ++ (opus.feed _ (state.fill opus config.frameSamples).pendingPackets).1 = []
        rw [hpcm, hpackets, List.drop_nil]
        rfl
      rw [hnone]
      rfl
    · rfl

theorem eq_nil_of_turns (hframe : 0 < config.frameSamples) (hturns : speaker.turns config = 0)
    {state : SpeakerState δ} (hstate : speaker.state = some state) :
    state.pendingPackets = [] ∧ state.pendingPcm = [] := by
  rw [turns, hstate, Option.elim_some] at hturns
  exact SpeakerState.eq_nil_of_turns hframe hturns

theorem remaining_of_turns (hframe : 0 < config.frameSamples) (hturns : speaker.turns config = 0) :
    speaker.remaining opus = [] := by
  cases hstate : speaker.state with
  | none => rw [remaining, hstate, Option.elim_none]
  | some state =>
    obtain ⟨hpackets, hpcm⟩ := eq_nil_of_turns hframe hturns hstate
    rw [remaining, hstate, Option.elim_some, SpeakerState.remaining, hpackets, hpcm]
    rfl

/-- A speaker with nothing left is removed once it is idle. -/
theorem tick_idle (hframe : 0 < config.frameSamples) (hturns : speaker.turns config = 0) {now : Nat}
    (hidle : ∀ state, speaker.state = some state → speakerIdleTimeout < now - state.lastPacketAt) :
    (speaker.tick opus config now).state = none := by
  cases hstate : speaker.state with
  | none => rw [tick_none hstate, hstate]
  | some state =>
    obtain ⟨hpackets, hpcm⟩ := eq_nil_of_turns hframe hturns hstate
    have hfill : state.fill opus config.frameSamples = state := by
      rw [SpeakerState.fill, hpackets, SpeakerState.decodeLoop]
    have hstale : state.isStale now = true := by
      rw [SpeakerState.isStale, hpackets, hpcm, decide_eq_true (hidle state hstate)]
      rfl
    rw [tick_some hstate, hfill, if_pos hstale]

theorem turns_tick (hfits : opus.Fits config.maxDecodeSamples) (hframe : 0 < config.frameSamples)
    (speaker : Speaker δ) (now : Nat) :
    (speaker.tick opus config now).turns config ≤ speaker.turns config - 1 := by
  cases hstate : speaker.state with
  | none =>
    rw [tick_none hstate, turns, hstate]
    exact Nat.zero_le _
  | some state =>
    rw [tick_some hstate, turns, turns, hstate]
    dsimp only [Option.elim_some]
    split
    · exact Nat.zero_le _
    · exact SpeakerState.turns_mix_fill hfits hframe

theorem lastPacketAt_decodeLoop (n : Nat) (packets : List Bytes) (state : SpeakerState δ) :
    (state.decodeLoop opus n packets).lastPacketAt = state.lastPacketAt := by
  induction packets generalizing state with
  | nil => rfl
  | cons opusData packets ih =>
    rw [SpeakerState.decodeLoop]
    split
    · cases opus.decode state.decoder opusData with
      | mk decoded decoder =>
        cases decoded with
        | some decoded => exact ih _
        | none => rfl
    · rfl

theorem lastPacketAt_tick {now : Nat} {state' : SpeakerState δ}
    (hstate' : (speaker.tick opus config now).state = some state') :
    ∃ state, speaker.state = some state ∧ state'.lastPacketAt = state.lastPacketAt := by
  cases hstate : speaker.state with
  | none =>
    rw [tick_none hstate, hstate] at hstate'
    cases hstate'
  | some state =>
    rw [tick_some hstate] at hstate'
    dsimp only at hstate'
    split at hstate'
    · cases hstate'
    · cases hstate'
      exact ⟨state, rfl, lastPacketAt_decodeLoop _ _ _⟩

/-- What ticks alone do. -/
structure Quiet (opus : Opus δ) (config : MixerConfig) (speaker speaker' : Speaker δ) (ticks : Nat) : Prop where
  played : speaker'.played ++ speaker'.remaining opus = speaker.played ++ speaker.remaining opus
  turns : speaker'.turns config ≤ speaker.turns config - ticks
  lastPacketAt : ∀ state', speaker'.state = some state' →
    ∃ state, speaker.state = some state ∧ state'.lastPacketAt = state.lastPacketAt

theorem quiet_ticks (hfits : opus.Fits config.maxDecodeSamples) (hframe : 0 < config.frameSamples)
    (times : List Nat) (speaker : Speaker δ) :
    Quiet opus config speaker ((times.map SpeakerInput.tick).foldl (Speaker.next opus config) speaker)
      times.length := by
  induction times generalizing speaker with
  | nil => exact ⟨rfl, Nat.le_refl _, fun state' hstate' => ⟨state', hstate', rfl⟩⟩
  | cons now times ih =>
    have hrest := ih (speaker.tick opus config now)
    refine ⟨hrest.played.trans (remaining_tick speaker now), ?_, fun state' hstate' => ?_⟩
    · have hfirst := turns_tick hfits hframe speaker now
      have hturns := hrest.turns
      rw [List.length_cons]
      show ((times.map SpeakerInput.tick).foldl (Speaker.next opus config)
        (speaker.tick opus config now)).turns config ≤ _
      omega
    · obtain ⟨state, hstate, hsame⟩ := hrest.lastPacketAt state' hstate'
      obtain ⟨state₀, hstate₀, hsame₀⟩ := lastPacketAt_tick hstate
      exact ⟨state₀, hstate₀, hsame.trans hsame₀⟩

end Speaker

/-- The sender of a packet. -/
def MixerAction.sender : MixerAction δ → Option UInt32
  | .packet sessionId _ _ _ => some sessionId
  | _ => none

/-- The clock of a tick. -/
def MixerAction.tickTime : MixerAction δ → Option Nat
  | .tick _ now => some now
  | _ => none

/-- Without packets of its own, a speaker has nothing but ticks. -/
theorem heardBy_quiet {sessionId : UInt32} {as : List (MixerAction δ)}
    (hquiet : ∀ a ∈ as, a.sender ≠ some sessionId) :
    as.filterMap (MixerAction.heardBy sessionId) = (as.filterMap MixerAction.tickTime).map SpeakerInput.tick := by
  induction as with
  | nil => rfl
  | cons a as ih =>
    have hrest := ih fun a' hmem => hquiet a' (List.mem_cons_of_mem _ hmem)
    have hne := hquiet a List.mem_cons_self
    cases a with
    | tick order now => exact congrArg (SpeakerInput.tick now :: ·) hrest
    | packet sessionId' opusData decoder now =>
      have hnone : MixerAction.heardBy sessionId (.packet sessionId' opusData decoder now) = none :=
        if_neg fun heq => hne (congrArg some heq)
      rw [List.filterMap_cons_none hnone, hrest]
      rfl
    | _ => exact hrest

/-- The ticks that a silent speaker may take to be played. -/
def MixerConfig.silentTicks (config : MixerConfig) : Nat := (config.maxPacketsPerSpeaker + 1) * config.packetFrames

/-- A speaker that sends nothing more, whatever the others do: after a bounded number of ticks all that it had
pending, and what its packets decode to, has been played, and it has nothing left; from then on a tick that comes
more than the idle timeout after its last packet removes it. -/
theorem silent_speaker_leaves (hrate : 100 ≤ config.sampleRate) (hfits : opus.Fits config.maxDecodeSamples)
    {m m' : Mixer δ} (hm : (mixedDecoder opus config).Reachable m) {sessionId : UInt32} {state : SpeakerState δ}
    (hstate : m.speakers.lookup sessionId = some state) {as : List (MixerAction δ)}
    (hrun : (mixedDecoder opus config).run System.anyStep m as = some m')
    (hquiet : ∀ a ∈ as, a.sender ≠ some sessionId)
    (hticks : config.silentTicks ≤ (as.filterMap MixerAction.tickTime).length) :
    (m'.speaker sessionId).played = (m.speaker sessionId).played ++ state.remaining opus ∧
    (∀ state', m'.speakers.lookup sessionId = some state' →
      state'.pendingPackets = [] ∧ state'.pendingPcm = [] ∧ state'.lastPacketAt = state.lastPacketAt) ∧
    ∀ order now, m'.enabled (.tick order now) → speakerIdleTimeout < now - state.lastPacketAt →
      (m'.tick opus config order now).speakers.lookup sessionId = none := by
  have hframe : 0 < config.frameSamples := by
    unfold MixerConfig.frameSamples frameDurationMs
    omega
  have hproject := (Mixer.observes_speaker sessionId).run hrun
  have hspeaker : (m.speaker sessionId).state = some state.unplaced := by
    rw [Mixer.speaker, hstate, Option.map_some]
  have h := Speaker.quiet_ticks hfits hframe (as.filterMap MixerAction.tickTime) (m.speaker sessionId)
  rw [heardBy_quiet hquiet] at hproject
  rw [← hproject] at h
  have hturns : (m'.speaker sessionId).turns config = 0 := by
    have hbound : (m.speaker sessionId).turns config ≤ config.silentTicks := by
      rw [Speaker.turns, hspeaker, Option.elim_some]
      exact ((Mixer.accounted_of_reachable hfits hframe hm).speakers sessionId state hstate).bounded.turns_le
    have hle := h.turns
    omega
  have hlast : ∀ state', (m'.speaker sessionId).state = some state' → state'.lastPacketAt = state.lastPacketAt := by
    intro state' hstate'
    obtain ⟨state₀, hstate₀, hsame⟩ := h.lastPacketAt state' hstate'
    rw [hspeaker] at hstate₀
    cases hstate₀
    exact hsame
  refine ⟨?_, fun state' hstate' => ?_, fun order now henabled hidle => ?_⟩
  · have hplayed := h.played
    have hbefore : (m.speaker sessionId).remaining opus = state.remaining opus := by
      rw [Speaker.remaining, hspeaker]
      rfl
    rw [Speaker.remaining_of_turns hframe hturns, List.append_nil, hbefore] at hplayed
    exact hplayed
  · have hspeaker' : (m'.speaker sessionId).state = some state'.unplaced := by
      rw [Mixer.speaker, hstate', Option.map_some]
    obtain ⟨hpackets, hpcm⟩ := Speaker.eq_nil_of_turns hframe hturns hspeaker'
    have hsame := hlast state'.unplaced hspeaker'
    exact ⟨hpackets, hpcm, hsame⟩
  · have hgone : ((m'.tick opus config order now).speaker sessionId).state = none := by
      rw [Mixer.speaker_tick henabled]
      apply Speaker.tick_idle hframe hturns
      intro state' hstate'
      rw [hlast state' hstate']
      exact hidle
    exact Option.map_eq_none_iff.1 hgone

/-- One packet, and no more; after sixty ticks the speaker has nothing left, and is removed in time. -/
theorem silent_speaker_leaves_one : ∃ m m', (mixedDecoder silentOpus ⟨8000, 0⟩).Reachable m ∧
    (mixedDecoder silentOpus ⟨8000, 0⟩).run System.anyStep m (List.replicate 60 (.tick [5] 1)) = some m' ∧
    (m'.speaker 5).played.length = 80 ∧
    (m'.tick silentOpus ⟨8000, 0⟩ [5] (6 * 10 ^ 9)).speakers.lookup 5 = none := by
  obtain ⟨m, hm, hdone⟩ := System.exists_reaches_of_run (mixedDecoder silentOpus ⟨8000, 0⟩)
    System.anyStep (s := .start) rfl [.packet 5 [0xF0] (some ()) 0]
    (fun m => (m.speakers.lookup 5).any (fun state : SpeakerState Unit =>
        decide (state.lastPacketAt = 0) && decide ((state.remaining silentOpus).length = 80)) &&
      decide ((m.speaker 5).played = []) &&
      ((mixedDecoder silentOpus ⟨8000, 0⟩).run System.anyStep m (List.replicate 60 (.tick [5] 1))).any
        fun m' : Mixer Unit => decide (m'.enabled (.tick [5] (6 * 10 ^ 9))))
    (by decide)
  simp only [Bool.and_eq_true, decide_eq_true_iff, Option.any_eq_true] at hdone
  obtain ⟨⟨⟨state, hstate, hlast, hlength⟩, hplayed⟩, m', hrun, henabled⟩ := hdone
  have hquiet : ∀ a ∈ List.replicate 60 (MixerAction.tick [5] 1 : MixerAction Unit), a.sender ≠ some 5 := by
    intro a hmem
    rw [List.eq_of_mem_replicate hmem]
    exact Option.some_ne_none _ |>.symm
  obtain ⟨hall, _, hgone⟩ := silent_speaker_leaves (by decide) (fits_silentOpus (by decide)) hm hstate hrun hquiet
    (by decide)
  refine ⟨m, m', hm, hrun, ?_, hgone _ _ henabled ?_⟩
  · rw [hall, hplayed, List.nil_append, hlength]
  · rw [hlast]
    decide

end MumbleSip
