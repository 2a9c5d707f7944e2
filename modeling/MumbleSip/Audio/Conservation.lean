import MumbleSip.Audio.Mixer

/-!
# Conservation in the mixer

What the packets of a speaker decode to is either in the frames mixed since the speaker was created or still in
`pending_pcm`, in the order of arrival; the packets that have not been decoded or evicted are in
`pending_packets`. The sounds received are in the frames mixed, or still queued.
-/

namespace MumbleSip

open Transition

variable {δ : Type} {opus : Opus δ} {config : MixerConfig}

/-- The decodings of a sequence of packets, and the decoder after them. A packet that fails has none. -/
def Opus.feed (opus : Opus δ) : δ → List Bytes → Pcm × δ
  | decoder, [] => ([], decoder)
  | decoder, opusData :: packets =>
    let decoded := opus.decode decoder opusData
    let rest := feed opus decoded.2 packets
    (decoded.1.getD [] ++ rest.1, rest.2)

theorem Opus.feed_append (decoder : δ) (packets packets' : List Bytes) :
    opus.feed decoder (packets ++ packets')
      = ((opus.feed decoder packets).1 ++ (opus.feed (opus.feed decoder packets).2 packets').1,
        (opus.feed (opus.feed decoder packets).2 packets').2) := by
  induction packets generalizing decoder with
  | nil => rfl
  | cons opusData packets ih =>
    simp only [List.cons_append, Opus.feed, ih, List.append_assoc]

/-- The packet that an action brings for a speaker. -/
def MixerAction.packetOf (sessionId : UInt32) : MixerAction δ → Option Bytes
  | .packet sessionId' opusData _ _ => if sessionId' = sessionId then some opusData else none
  | _ => none

def MixerAction.soundPcm : MixerAction δ → Option Pcm
  | .sound pcm => some pcm
  | _ => none

/-- A packet decodes to at most that many samples. -/
def Opus.Fits (opus : Opus δ) (maxDecodeSamples : Nat) : Prop :=
  ∀ decoder opusData decoded, (opus.decode decoder opusData).1 = some decoded →
    decoded.length ≤ maxDecodeSamples

/-- The packets that went through the decoder. -/
def SpeakerHistory.decoded (history : SpeakerHistory δ) : List Bytes :=
  (history.taken.filter Prod.snd).map Prod.fst

namespace SpeakerState

variable {state : SpeakerState δ} {mixed : Pcm} {n : Nat}

/-- The packets that have arrived are those taken and those pending; what those decoded give is what has been
mixed and what is pending. -/
def Conserved (opus : Opus δ) (mixed : Pcm) (state : SpeakerState δ) : Prop :=
  state.history.arrived = state.history.taken.map Prod.fst ++ state.pendingPackets ∧
    opus.feed state.history.decoder state.history.decoded = (mixed ++ state.pendingPcm, state.decoder)

theorem decoded_take (opusData : Bytes) (packets : List Bytes) (decoded : Bool) :
    (state.take opusData packets decoded).history.decoded
      = state.history.decoded ++ if decoded then [opusData] else [] := by
  simp only [take, SpeakerHistory.decoded, List.filter_append, List.map_append]
  cases decoded <;> rfl

theorem Conserved.decode (h : state.Conserved opus mixed) {opusData : Bytes} {packets : List Bytes}
    (hfront : state.pendingPackets = opusData :: packets) {decoded : Option Pcm} {decoder : δ}
    (hdecode : opus.decode state.decoder opusData = (decoded, decoder)) :
    Conserved opus mixed { state.take opusData packets true with
      decoder := decoder
      pendingPcm := state.pendingPcm ++ decoded.getD [] } := by
  obtain ⟨harrived, hfeed⟩ := h
  refine ⟨?_, ?_⟩
  · show state.history.arrived = (state.history.taken ++ [(opusData, true)]).map Prod.fst ++ packets
    rw [harrived, hfront, List.map_append, List.append_assoc]
    rfl
  · show opus.feed state.history.decoder (state.take opusData packets true).history.decoded = _
    rw [decoded_take, if_pos rfl, Opus.feed_append, hfeed]
    simp only [Opus.feed, hdecode, List.append_nil, List.append_assoc]

theorem Conserved.decodeLoop (packets : List Bytes) (h : state.Conserved opus mixed)
    (hpackets : state.pendingPackets = packets) :
    (state.decodeLoop opus n packets).Conserved opus mixed := by
  induction packets generalizing state with
  | nil => exact h
  | cons opusData packets ih =>
    rw [SpeakerState.decodeLoop]
    split
    · cases hdecode : opus.decode state.decoder opusData with
      | mk decoded decoder =>
        have hnext := h.decode hpackets hdecode
        cases decoded with
        | some decoded => exact ih hnext rfl
        | none =>
          rw [Option.getD_none, List.append_nil] at hnext
          exact hnext
    · exact h

theorem Conserved.fill (h : state.Conserved opus mixed) : (state.fill opus n).Conserved opus mixed :=
  h.decodeLoop _ rfl

theorem Conserved.mix (h : state.Conserved opus mixed) :
    (state.mix n).Conserved opus (mixed ++ state.pendingPcm.take n) := by
  refine ⟨h.1, ?_⟩
  show opus.feed state.history.decoder state.history.decoded
    = ((mixed ++ state.pendingPcm.take n) ++ state.pendingPcm.drop n, state.decoder)
  rw [List.append_assoc, List.take_append_drop]
  exact h.2

theorem Conserved.evict (h : state.Conserved opus mixed) (maxPackets : Nat) :
    (state.evict maxPackets).Conserved opus mixed := by
  unfold SpeakerState.evict
  split
  · split
    · rename_i opusData packets hfront
      refine ⟨?_, ?_⟩
      · show state.history.arrived = (state.history.taken ++ [(opusData, false)]).map Prod.fst ++ packets
        rw [h.1, hfront, List.map_append, List.append_assoc]
        rfl
      · show opus.feed state.history.decoder (state.take opusData packets false).history.decoded = _
        rw [decoded_take, if_neg Bool.false_ne_true, List.append_nil]
        exact h.2
    · exact h
  · exact h

theorem Conserved.receive (h : state.Conserved opus mixed) (maxPackets : Nat) (opusData : Bytes)
    (now : Nat) : (state.receive maxPackets opusData now).Conserved opus mixed := by
  obtain ⟨harrived, hfeed⟩ := h.evict maxPackets
  refine ⟨?_, hfeed⟩
  show (state.evict maxPackets).history.arrived ++ [opusData]
    = (state.evict maxPackets).history.taken.map Prod.fst
      ++ ((state.evict maxPackets).pendingPackets ++ [opusData])
  rw [harrived, List.append_assoc]

/-! ### Bounds -/

/-- What lies between two ticks. -/
def Bounded (config : MixerConfig) (state : SpeakerState δ) : Prop :=
  state.pendingPackets.length ≤ config.maxPacketsPerSpeaker ∧
    state.pendingPcm.length < config.maxDecodeSamples

/-- The loop stops as soon as there are enough samples for a frame. -/
theorem length_decodeLoop {maxDecodeSamples : Nat} (hfits : opus.Fits maxDecodeSamples)
    (packets : List Bytes) (h : state.pendingPcm.length < n + maxDecodeSamples) :
    (state.decodeLoop opus n packets).pendingPcm.length < n + maxDecodeSamples := by
  induction packets generalizing state with
  | nil => exact h
  | cons opusData packets ih =>
    rw [decodeLoop]
    split
    · rename_i hshort
      cases hdecode : opus.decode state.decoder opusData with
      | mk decoded decoder =>
        cases decoded with
        | some decoded =>
          have hle := hfits state.decoder opusData decoded (by rw [hdecode])
          apply ih
          show (state.pendingPcm ++ decoded).length < n + maxDecodeSamples
          rw [List.length_append]
          omega
        | none => exact h
    · exact h

theorem length_pendingPackets_decodeLoop (packets : List Bytes) (hpackets : state.pendingPackets = packets) :
    (state.decodeLoop opus n packets).pendingPackets.length ≤ packets.length := by
  induction packets generalizing state with
  | nil =>
    rw [decodeLoop, hpackets]
  | cons opusData packets ih =>
    rw [decodeLoop]
    split
    · cases opus.decode state.decoder opusData with
      | mk decoded decoder =>
        cases decoded with
        | some decoded => exact Nat.le_succ_of_le (ih rfl)
        | none => exact Nat.le_succ packets.length
    · rw [hpackets]

/-- Packets are taken, and nothing else happens to the history. -/
theorem history_decodeLoop (packets : List Bytes) (state : SpeakerState δ) :
    ∃ taken, (state.decodeLoop opus n packets).history = { state.history with taken := taken } := by
  induction packets generalizing state with
  | nil => exact ⟨_, rfl⟩
  | cons opusData packets ih =>
    rw [decodeLoop]
    split
    · cases opus.decode state.decoder opusData with
      | mk decoded decoder =>
        cases decoded with
        | some decoded =>
          obtain ⟨taken, htaken⟩ := ih { state.take opusData packets true with
            decoder := decoder
            pendingPcm := state.pendingPcm ++ decoded }
          exact ⟨taken, htaken⟩
        | none => exact ⟨_, rfl⟩
    · exact ⟨_, rfl⟩

theorem createdAt_fill : (state.fill opus n).history.createdAt = state.history.createdAt := by
  obtain ⟨taken, htaken⟩ : ∃ taken, (state.fill opus n).history = _ := history_decodeLoop _ state
  rw [htaken]

theorem Bounded.tick (h : state.Bounded config) (hfits : opus.Fits config.maxDecodeSamples)
    (hframe : 0 < config.frameSamples) :
    ((state.fill opus config.frameSamples).mix config.frameSamples).Bounded config := by
  have hmax : config.frameSamples ≤ config.maxDecodeSamples := Nat.le_max_right _ _
  refine ⟨(length_pendingPackets_decodeLoop _ rfl).trans h.1, ?_⟩
  have hfill := length_decodeLoop (n := config.frameSamples) hfits state.pendingPackets
    (Nat.lt_of_lt_of_le h.2 (Nat.le_add_left _ _))
  show ((state.fill opus config.frameSamples).pendingPcm.drop config.frameSamples).length
    < config.maxDecodeSamples
  rw [List.length_drop]
  unfold fill
  omega

theorem Bounded.receive (h : state.Bounded config) (opusData : Bytes) (now : Nat) :
    (state.receive config.maxPacketsPerSpeaker opusData now).Bounded config := by
  have hmax : 4 ≤ config.maxPacketsPerSpeaker := Nat.le_max_right _ _
  have hevict : (state.evict config.maxPacketsPerSpeaker).pendingPackets.length
      < config.maxPacketsPerSpeaker ∧
      (state.evict config.maxPacketsPerSpeaker).pendingPcm = state.pendingPcm := by
    have hlength := h.1
    unfold evict
    split
    · split
      · rename_i opusData' packets hfront
        rw [hfront, List.length_cons] at hlength
        exact ⟨hlength, rfl⟩
      · rename_i hfull _ hempty
        rw [hempty, List.length_nil] at hfull
        omega
    · rename_i hroom
      exact ⟨Nat.lt_of_not_le hroom, rfl⟩
  refine ⟨?_, ?_⟩
  · show ((state.evict config.maxPacketsPerSpeaker).pendingPackets ++ [opusData]).length
      ≤ config.maxPacketsPerSpeaker
    rw [List.length_append]
    exact hevict.1
  · show (state.evict config.maxPacketsPerSpeaker).pendingPcm.length < config.maxDecodeSamples
    rw [hevict.2]
    exact h.2

theorem history_evict (maxPackets : Nat) (state : SpeakerState δ) :
    ∃ taken, (state.evict maxPackets).history = { state.history with taken := taken } := by
  unfold evict
  split
  · split
    · exact ⟨_, rfl⟩
    · exact ⟨_, rfl⟩
  · exact ⟨_, rfl⟩

theorem history_receive (maxPackets : Nat) (state : SpeakerState δ) (opusData : Bytes) (now : Nat) :
    ∃ taken, (state.receive maxPackets opusData now).history
      = { state.history with arrived := state.history.arrived ++ [opusData], taken := taken } := by
  obtain ⟨taken, htaken⟩ := history_evict maxPackets state
  refine ⟨taken, ?_⟩
  simp only [receive, htaken]

theorem createdAt_receive (maxPackets : Nat) (opusData : Bytes) (now : Nat) :
    (state.receive maxPackets opusData now).history.createdAt = state.history.createdAt := by
  obtain ⟨taken, htaken⟩ := history_receive maxPackets state opusData now
  rw [htaken]

end SpeakerState

/-! ### Frames -/

/-- What a speaker has put into a frame. -/
def MixedFrame.part (frame : MixedFrame) (sessionId : UInt32) : Pcm :=
  (frame.speakers.lookup sessionId).getD []

/-- A sample, as it is added; past the end nothing is. -/
def sampleAt (i : Nat) (pcm : Pcm) : Int32 := (pcm[i]?.map Int16.toInt32).getD 0

/-- Each sample of the frame is the sum of those that the speakers and the sound have at its position. -/
def MixedFrame.Mixes (frame : MixedFrame) (frameSamples : Nat) : Prop :=
  frame.samples.length = frameSamples ∧
    (∀ part ∈ frame.speakers.map Prod.snd ++ [frame.sound], part.length ≤ frameSamples) ∧
    ∀ i < frameSamples, frame.samples[i]? = some (clampSample
      ((frame.speakers.map Prod.snd ++ [frame.sound]).foldl (fun accum part => accum + sampleAt i part) 0))

theorem length_addSamples (accums : List Int32) (pcm : Pcm) :
    (addSamples accums pcm).length = accums.length := by
  fun_induction addSamples accums pcm with
  | case1 accum accums sample samples ih => rw [List.length_cons, List.length_cons, ih]
  | case2 => rfl

theorem getElem_addSamples (accums : List Int32) (pcm : Pcm) (i : Nat) :
    (addSamples accums pcm)[i]? = accums[i]?.map (· + sampleAt i pcm) := by
  induction accums generalizing pcm i with
  | nil => rfl
  | cons accum accums ih =>
    cases pcm with
    | nil =>
      show (accum :: accums)[i]? = (accum :: accums)[i]?.map (· + 0)
      cases (accum :: accums)[i]? with
      | none => rfl
      | some a => rw [Option.map_some, Int32.add_zero]
    | cons sample samples =>
      cases i with
      | zero => rfl
      | succ i =>
        simp only [addSamples, sampleAt, List.getElem?_cons_succ]
        exact ih samples i

theorem getElem_foldl_addSamples (parts : List Pcm) (accums : List Int32) (i : Nat) :
    (parts.foldl addSamples accums)[i]?
      = accums[i]?.map fun accum => parts.foldl (fun accum part => accum + sampleAt i part) accum := by
  induction parts generalizing accums with
  | nil => exact Option.map_id'.symm
  | cons part parts ih =>
    rw [List.foldl_cons, ih, getElem_addSamples, Option.map_map]
    rfl

theorem length_foldl_addSamples (parts : List Pcm) (accums : List Int32) :
    (parts.foldl addSamples accums).length = accums.length := by
  induction parts generalizing accums with
  | nil => rfl
  | cons part parts ih => rw [List.foldl_cons, ih, length_addSamples]

theorem length_mixFrame (n : Nat) (parts : List Pcm) : (mixFrame n parts).length = n := by
  rw [mixFrame, List.length_map, length_foldl_addSamples, List.length_replicate]

theorem getElem_mixFrame {n i : Nat} (hi : i < n) (parts : List Pcm) :
    (mixFrame n parts)[i]?
      = some (clampSample (parts.foldl (fun accum part => accum + sampleAt i part) 0)) := by
  rw [mixFrame, List.getElem?_map, getElem_foldl_addSamples, List.getElem?_replicate_of_lt hi]
  rfl

/-- Looking a key up in a list made key by key. -/
theorem lookup_filterMap_key {κ α : Type} [DecidableEq κ] (f : κ → Option α) (ks : List κ) (k : κ) :
    (ks.filterMap fun k => (f k).map fun a => (k, a)).lookup k = if k ∈ ks then f k else none := by
  induction ks with
  | nil => rfl
  | cons k' ks ih =>
    by_cases heq : k = k'
    · subst k'
      rw [if_pos List.mem_cons_self]
      cases hf : f k with
      | none =>
        rw [List.filterMap_cons_none (by rw [hf, Option.map_none]), ih, hf, ite_self]
      | some a =>
        rw [List.filterMap_cons_some (by rw [hf, Option.map_some]), List.lookup_cons_self]
    · have hrest : (if k ∈ k' :: ks then f k else none) = if k ∈ ks then f k else none := by
        simp only [List.mem_cons, heq, false_or]
      rw [hrest, ← ih]
      cases hf : f k' with
      | none => rw [List.filterMap_cons_none (by rw [hf, Option.map_none])]
      | some a =>
        rw [List.filterMap_cons_some (by rw [hf, Option.map_some]), List.lookup_cons,
          beq_false_of_ne heq]

namespace Mixer

variable {m : Mixer δ} {sessionId : UInt32} {state : SpeakerState δ} {order : List UInt32} {now : Nat}

/-- What a speaker has put into the frames mixed since it was created. -/
def contributed (m : Mixer δ) (sessionId : UInt32) (state : SpeakerState δ) : Pcm :=
  (m.emitted.drop state.history.createdAt).flatMap fun frame => frame.part sessionId

theorem lookup_filled : (m.filled opus config).lookup sessionId
    = (m.speakers.lookup sessionId).map fun state => state.fill opus config.frameSamples := by
  rw [filled, FiniteMap.lookup_mapValues]

theorem lookup_parts (hmem : sessionId ∈ order)
    (hstate : m.speakers.lookup sessionId = some state) :
    ((m.parts opus config order).lookup sessionId).getD []
      = (state.fill opus config.frameSamples).pendingPcm.take config.frameSamples := by
  have hparts : m.parts opus config order = order.filterMap fun sessionId =>
      (((m.filled opus config).lookup sessionId).bind fun state =>
        if state.pendingPcm.isEmpty then none else some (state.pendingPcm.take config.frameSamples)).map
          fun part => (sessionId, part) := by
    unfold parts
    congr 1
    funext sessionId
    cases (m.filled opus config).lookup sessionId with
    | none => rfl
    | some state =>
      simp only [Option.bind_some]
      split <;> rfl
  rw [hparts, lookup_filterMap_key, if_pos hmem, lookup_filled, hstate, Option.map_some, Option.bind_some]
  split
  · rename_i hempty
    rw [List.isEmpty_iff.1 hempty, List.take_nil]
    rfl
  · rfl

theorem length_of_mem_parts {part : Pcm} (hmem : part ∈ (m.parts opus config order).map Prod.snd) :
    part.length ≤ config.frameSamples := by
  obtain ⟨entry, hentry, rfl⟩ := List.mem_map.1 hmem
  obtain ⟨sessionId, _, hpart⟩ := List.mem_filterMap.1 hentry
  split at hpart
  · split at hpart
    · cases hpart
    · cases hpart
      exact List.length_take_le _ _
  · cases hpart

theorem frame_eq (m : Mixer δ) (order : List UInt32) : m.frame opus config order
    = if (m.parts opus config order).isEmpty && m.soundQueue.isEmpty then none
      else some ⟨mixFrame config.frameSamples
          ((m.parts opus config order).map Prod.snd ++ [m.soundQueue.take config.frameSamples]),
        m.parts opus config order, m.soundQueue.take config.frameSamples⟩ := rfl

theorem mixes_frame {frame : MixedFrame} (hframe : m.frame opus config order = some frame) :
    frame.Mixes config.frameSamples := by
  rw [frame_eq] at hframe
  split at hframe
  · cases hframe
  · cases hframe
    refine ⟨length_mixFrame _ _, ?_, fun i hi => getElem_mixFrame hi _⟩
    intro part hpart
    rcases List.mem_append.1 hpart with hspeaker | hsound
    · exact length_of_mem_parts hspeaker
    · rw [List.mem_singleton.1 hsound]
      exact List.length_take_le _ _

theorem flatMap_part_frame (sessionId : UInt32) :
    ((m.frame opus config order).toList.flatMap fun frame => frame.part sessionId)
      = ((m.parts opus config order).lookup sessionId).getD [] := by
  rw [frame_eq]
  split
  · rename_i hnone
    rw [Bool.and_eq_true, List.isEmpty_iff] at hnone
    rw [hnone.1]
    rfl
  · exact List.append_nil _

theorem flatMap_sound_frame : ((m.frame opus config order).toList.flatMap MixedFrame.sound)
    = m.soundQueue.take config.frameSamples := by
  rw [frame_eq]
  split
  · rename_i hnone
    rw [Bool.and_eq_true, List.isEmpty_iff, List.isEmpty_iff] at hnone
    rw [hnone.2, List.take_nil]
    rfl
  · exact List.append_nil _

theorem contributed_tick (hmem : sessionId ∈ order) (hstate : m.speakers.lookup sessionId = some state)
    (hcreated : state.history.createdAt ≤ m.emitted.length) :
    (m.tick opus config order now).contributed sessionId state
      = m.contributed sessionId state
        ++ (state.fill opus config.frameSamples).pendingPcm.take config.frameSamples := by
  show ((m.emitted ++ (m.frame opus config order).toList).drop state.history.createdAt).flatMap _ = _
  rw [List.drop_append_of_le_length hcreated, List.flatMap_append, flatMap_part_frame, lookup_parts hmem hstate]
  rfl

theorem contributed_of_createdAt {state' : SpeakerState δ}
    (hcreated : state'.history.createdAt = state.history.createdAt) :
    m.contributed sessionId state' = m.contributed sessionId state := by
  rw [contributed, hcreated, contributed]

/-! ### The accounts of a run -/

/-- What holds of a speaker between two steps. -/
structure SpeakerAccounted (opus : Opus δ) (config : MixerConfig) (m : Mixer δ) (sessionId : UInt32)
    (state : SpeakerState δ) : Prop where
  created : state.history.createdAt ≤ m.emitted.length
  conserved : state.Conserved opus (m.contributed sessionId state)
  bounded : state.Bounded config

structure Accounted (opus : Opus δ) (config : MixerConfig) (m : Mixer δ) : Prop where
  speakers : ∀ sessionId state, m.speakers.lookup sessionId = some state →
    m.SpeakerAccounted opus config sessionId state
  sounds : m.emitted.flatMap MixedFrame.sound ++ m.soundQueue = m.sounds.flatten
  frames : ∀ frame ∈ m.emitted, frame.Mixes config.frameSamples

theorem mem_order (henabled : m.enabled (.tick order now))
    (hstate : m.speakers.lookup sessionId = some state) : sessionId ∈ order :=
  henabled.2.mem_iff.2 (AList.mem_keys.1 (AList.lookup_isSome.1 (by rw [hstate]; rfl)))

theorem lookup_tick (state' : SpeakerState δ) :
    (m.tick opus config order now).speakers.lookup sessionId = some state' →
      ∃ state, m.speakers.lookup sessionId = some state ∧
        state' = (state.fill opus config.frameSamples).mix config.frameSamples := by
  intro h
  simp only [tick, FiniteMap.lookup_eraseAll, FiniteMap.lookup_mapValues, lookup_filled] at h
  split at h
  · cases h
  · cases hstate : m.speakers.lookup sessionId with
    | none =>
      rw [hstate] at h
      cases h
    | some state =>
      rw [hstate] at h
      exact ⟨state, rfl, (Option.some.inj h).symm⟩

theorem SpeakerAccounted.tick (h : m.SpeakerAccounted opus config sessionId state)
    (hfits : opus.Fits config.maxDecodeSamples) (hframe : 0 < config.frameSamples)
    (hmem : sessionId ∈ order) (hstate : m.speakers.lookup sessionId = some state) :
    (m.tick opus config order now).SpeakerAccounted opus config sessionId
      ((state.fill opus config.frameSamples).mix config.frameSamples) := by
  have hcreated : ((state.fill opus config.frameSamples).mix config.frameSamples).history.createdAt
      = state.history.createdAt := SpeakerState.createdAt_fill
  refine ⟨?_, ?_, h.bounded.tick hfits hframe⟩
  · rw [hcreated]
    apply h.created.trans
    show m.emitted.length ≤ (m.emitted ++ _).length
    rw [List.length_append]
    exact Nat.le_add_right _ _
  · rw [contributed_of_createdAt hcreated, contributed_tick hmem hstate h.created]
    exact h.conserved.fill.mix

theorem Accounted.tick (h : m.Accounted opus config) (hfits : opus.Fits config.maxDecodeSamples)
    (hframe : 0 < config.frameSamples) (henabled : m.enabled (.tick order now)) :
    (m.tick opus config order now).Accounted opus config := by
  refine ⟨?_, ?_, ?_⟩
  · intro sessionId state' hstate'
    obtain ⟨state, hstate, rfl⟩ := lookup_tick state' hstate'
    exact (h.speakers sessionId state hstate).tick hfits hframe (mem_order henabled hstate) hstate
  · show (m.emitted ++ (m.frame opus config order).toList).flatMap MixedFrame.sound
      ++ m.soundQueue.drop config.frameSamples = m.sounds.flatten
    rw [List.flatMap_append, flatMap_sound_frame, List.append_assoc, List.take_append_drop]
    exact h.sounds
  · intro frame hmem
    rcases List.mem_append.1 hmem with hbefore | hnew
    · exact h.frames frame hbefore
    · exact mixes_frame (Option.mem_toList.1 hnew)

theorem SpeakerAccounted.receive (h : m.SpeakerAccounted opus config sessionId state) (opusData : Bytes) :
    m.SpeakerAccounted opus config sessionId
      (state.receive config.maxPacketsPerSpeaker opusData now) := by
  have hcreated : (state.receive config.maxPacketsPerSpeaker opusData now).history.createdAt
      = state.history.createdAt := SpeakerState.createdAt_receive _ opusData now
  refine ⟨?_, ?_, h.bounded.receive opusData now⟩
  · rw [hcreated]
    exact h.created
  · rw [contributed_of_createdAt hcreated]
    exact h.conserved.receive _ opusData now

theorem speakerAccounted_new (hframe : 0 < config.frameSamples) (decoder : δ) :
    m.SpeakerAccounted opus config sessionId
      ⟨decoder, [], [], now, ⟨decoder, m.emitted.length, [], []⟩⟩ := by
  have hmax : config.frameSamples ≤ config.maxDecodeSamples := Nat.le_max_right _ _
  refine ⟨Nat.le_refl _, ⟨rfl, ?_⟩, Nat.zero_le _, Nat.lt_of_lt_of_le hframe hmax⟩
  show ([], decoder) = ((m.emitted.drop m.emitted.length).flatMap _ ++ [], decoder)
  rw [List.drop_length]
  rfl

theorem Accounted.insert (h : m.Accounted opus config)
    (hstate : m.SpeakerAccounted opus config sessionId state) :
    Accounted opus config { m with speakers := m.speakers.insert sessionId state } := by
  refine ⟨?_, h.sounds, h.frames⟩
  intro sessionId' state' hstate'
  rw [FiniteMap.lookup_insert] at hstate'
  split at hstate'
  · subst sessionId'
    cases hstate'
    exact ⟨hstate.created, hstate.conserved, hstate.bounded⟩
  · have hold := h.speakers sessionId' state' hstate'
    exact ⟨hold.created, hold.conserved, hold.bounded⟩

theorem Accounted.packet (h : m.Accounted opus config) (hframe : 0 < config.frameSamples)
    (sessionId : UInt32) (opusData : Bytes) (decoder : Option δ) :
    (m.packet config sessionId opusData decoder now).Accounted opus config := by
  unfold Mixer.packet
  split
  · rename_i state hstate
    exact h.insert ((h.speakers sessionId state hstate).receive opusData)
  · cases decoder with
    | none => exact h
    | some decoder => exact h.insert ((speakerAccounted_new hframe decoder).receive opusData)

theorem Accounted.frame (h : m.Accounted opus config) {m' : Mixer δ} (hspeakers : m'.speakers = m.speakers)
    (hemitted : m'.emitted = m.emitted)
    (hsounds : m.emitted.flatMap MixedFrame.sound ++ m'.soundQueue = m'.sounds.flatten) :
    m'.Accounted opus config := by
  refine ⟨?_, ?_, ?_⟩
  · intro sessionId state hstate
    rw [hspeakers] at hstate
    have hold := h.speakers sessionId state hstate
    refine ⟨?_, ?_, hold.bounded⟩
    · rw [hemitted]
      exact hold.created
    · rw [contributed, hemitted]
      exact hold.conserved
  · rw [hemitted]
    exact hsounds
  · rw [hemitted]
    exact h.frames

theorem Accounted.next (h : m.Accounted opus config) (hfits : opus.Fits config.maxDecodeSamples)
    (hframe : 0 < config.frameSamples) {a : MixerAction δ} (henabled : m.enabled a) :
    (m.next opus config a).Accounted opus config := by
  cases a with
  | tick order now => exact h.tick hfits hframe henabled
  | packet sessionId opusData decoder now => exact h.packet hframe sessionId opusData decoder
  | packetsClosed => exact h.frame rfl rfl h.sounds
  | sound pcm =>
    refine h.frame rfl rfl ?_
    show m.emitted.flatMap MixedFrame.sound ++ (m.soundQueue ++ pcm) = (m.sounds ++ [pcm]).flatten
    rw [← List.append_assoc, h.sounds, List.flatten_append, List.flatten_singleton]
  | soundsClosed => exact h.frame rfl rfl h.sounds

theorem accounted_of_reachable (hfits : opus.Fits config.maxDecodeSamples) (hframe : 0 < config.frameSamples)
    (hm : (mixedDecoder opus config).Reachable m) : m.Accounted opus config := by
  apply hm.invariant (I := Accounted opus config)
  · rintro m rfl
    refine ⟨?_, rfl, ?_⟩
    · intro sessionId state hstate
      cases hstate
    · intro frame hmem
      cases hmem
  · intro m a _ h henabled _
    exact h.next hfits hframe henabled

/-- What a step that removes a speaker has found of it. -/
def RemovesDone (opus : Opus δ) (config : MixerConfig) (m : Mixer δ) (a : MixerAction δ) : Prop :=
  ∀ sessionId state, m.speakers.lookup sessionId = some state →
    (m.next opus config a).speakers.lookup sessionId = none →
      ∃ done : SpeakerState δ, done.pendingPackets = [] ∧ done.pendingPcm = [] ∧
        done = state.fill opus config.frameSamples ∧
        done.Conserved opus ((m.next opus config a).contributed sessionId done)

/-- While sounds are queued, every tick has a frame, with the front of the queue. -/
def PlaysSounds (opus : Opus δ) (config : MixerConfig) (m : Mixer δ) (order : List UInt32) (now : Nat) :
    Prop :=
  m.soundQueue ≠ [] → ∃ frame, (m.tick opus config order now).emitted = m.emitted ++ [frame] ∧
    frame.sound = m.soundQueue.take config.frameSamples ∧
    (m.tick opus config order now).soundQueue = m.soundQueue.drop config.frameSamples

theorem lookup_insert_ne_none (hstate : m.speakers.lookup sessionId = some state) (sessionId' : UInt32)
    (state' : SpeakerState δ) : (m.speakers.insert sessionId' state').lookup sessionId ≠ none := by
  rw [FiniteMap.lookup_insert]
  split
  · exact Option.some_ne_none _
  · rw [hstate]
    exact Option.some_ne_none _

/-- Only a tick removes speakers, and only stale ones. -/
theorem mem_staleSpeakers_of_removed {a : MixerAction δ} (hstate : m.speakers.lookup sessionId = some state)
    (hgone : (m.next opus config a).speakers.lookup sessionId = none) :
    ∃ order now, a = .tick order now ∧ sessionId ∈ m.staleSpeakers opus config order now := by
  have hkept : m.speakers.lookup sessionId ≠ none := by
    rw [hstate]
    exact Option.some_ne_none _
  cases a with
  | tick order now =>
    refine ⟨order, now, rfl, ?_⟩
    by_contra hnot
    simp only [Mixer.next, Mixer.tick, FiniteMap.lookup_eraseAll, FiniteMap.lookup_mapValues, lookup_filled,
      if_neg hnot, hstate] at hgone
    cases hgone
  | packet sessionId' opusData decoder now =>
    exfalso
    simp only [Mixer.next, Mixer.packet] at hgone
    split at hgone
    · exact lookup_insert_ne_none hstate _ _ hgone
    · cases decoder with
      | none => exact hkept hgone
      | some decoder => exact lookup_insert_ne_none hstate _ _ hgone
  | packetsClosed => exact absurd hgone hkept
  | sound pcm => exact absurd hgone hkept
  | soundsClosed => exact absurd hgone hkept

theorem removesDone (h : m.Accounted opus config) {a : MixerAction δ} (henabled : m.enabled a) :
    m.RemovesDone opus config a := by
  intro sessionId state hstate hgone
  obtain ⟨order, now, rfl, hstale⟩ := mem_staleSpeakers_of_removed hstate hgone
  have hold := h.speakers sessionId state hstate
  have hidle := (List.mem_filter.1 hstale).2
  rw [lookup_filled, hstate, Option.map_some, Option.any_some, SpeakerState.isStale, Bool.and_eq_true,
    Bool.and_eq_true, List.isEmpty_iff, List.isEmpty_iff] at hidle
  obtain ⟨⟨hpcm, hpackets⟩, _⟩ := hidle
  refine ⟨state.fill opus config.frameSamples, hpackets, hpcm, rfl, ?_⟩
  have hcontributed : (m.tick opus config order now).contributed sessionId
      (state.fill opus config.frameSamples) = m.contributed sessionId state := by
    rw [contributed_of_createdAt SpeakerState.createdAt_fill,
      contributed_tick (mem_order henabled hstate) hstate hold.created, hpcm, List.take_nil, List.append_nil]
  show (state.fill opus config.frameSamples).Conserved opus ((m.tick opus config order now).contributed _ _)
  rw [hcontributed]
  exact hold.conserved.fill

theorem playsSounds (m : Mixer δ) (order : List UInt32) (now : Nat) :
    m.PlaysSounds opus config order now := by
  intro hqueued
  have hsome : ∃ frame, m.frame opus config order = some frame ∧
      frame.sound = m.soundQueue.take config.frameSamples := by
    rw [frame_eq, if_neg]
    · exact ⟨_, rfl, rfl⟩
    · rw [Bool.and_eq_true, List.isEmpty_iff, List.isEmpty_iff]
      exact fun hnone => hqueued hnone.2
  obtain ⟨frame, hframe, hsound⟩ := hsome
  refine ⟨frame, ?_, hsound, rfl⟩
  show m.emitted ++ (m.frame opus config order).toList = m.emitted ++ [frame]
  rw [hframe]
  rfl

/-! ### What a run has received -/

/-- The history of a speaker has all its packets from the one on that created it. -/
def RecallsSpeaker (opus : Opus δ) (config : MixerConfig) (actions : List (MixerAction δ)) (sessionId : UInt32)
    (history : SpeakerHistory δ) : Prop :=
  ∃ before opusData now after m₀,
    actions = before ++ .packet sessionId opusData (some history.decoder) now :: after ∧
    (mixedDecoder opus config).Trace System.anyStep before m₀ ∧ m₀.speakers.lookup sessionId = none ∧
    history.createdAt = m₀.emitted.length ∧
    history.arrived = opusData :: after.filterMap (MixerAction.packetOf sessionId)

/-- The histories say what the run has received. -/
structure Recalls (opus : Opus δ) (config : MixerConfig) (actions : List (MixerAction δ)) (m : Mixer δ) :
    Prop where
  speakers : ∀ sessionId state, m.speakers.lookup sessionId = some state →
    RecallsSpeaker opus config actions sessionId state.history
  sounds : m.sounds = actions.filterMap MixerAction.soundPcm

variable {actions : List (MixerAction δ)} {history history' : SpeakerHistory δ}

theorem RecallsSpeaker.concat (h : RecallsSpeaker opus config actions sessionId history) (a : MixerAction δ)
    (hdecoder : history'.decoder = history.decoder) (hcreated : history'.createdAt = history.createdAt)
    (harrived : history'.arrived = history.arrived ++ (a.packetOf sessionId).toList) :
    RecallsSpeaker opus config (actions ++ [a]) sessionId history' := by
  obtain ⟨before, opusData, now, after, m₀, rfl, htrace, hunknown, hcreated₀, harrived₀⟩ := h
  refine ⟨before, opusData, now, after ++ [a], m₀, ?_, htrace, hunknown, hcreated.trans hcreated₀, ?_⟩
  · rw [hdecoder, List.append_assoc, List.cons_append]
  · rw [harrived, harrived₀, List.cons_append, System.filterMap_concat]

theorem RecallsSpeaker.pass (h : RecallsSpeaker opus config actions sessionId history) {a : MixerAction δ}
    (hother : a.packetOf sessionId = none) : RecallsSpeaker opus config (actions ++ [a]) sessionId history :=
  h.concat a rfl rfl (by rw [hother, Option.toList_none, List.append_nil])

theorem RecallsSpeaker.tick (h : RecallsSpeaker opus config actions sessionId state.history) :
    RecallsSpeaker opus config (actions ++ [.tick order now]) sessionId
      ((state.fill opus config.frameSamples).mix config.frameSamples).history := by
  obtain ⟨taken, htaken⟩ : ∃ taken, ((state.fill opus config.frameSamples).mix config.frameSamples).history = _ :=
    SpeakerState.history_decodeLoop _ state
  rw [htaken]
  exact h.concat _ rfl rfl (List.append_nil _).symm

theorem packetOf_packet (sessionId : UInt32) (opusData : Bytes) (decoder : Option δ) (now : Nat) :
    (MixerAction.packet sessionId opusData decoder now).packetOf sessionId = some opusData := if_pos rfl

theorem packetOf_packet_of_ne {sessionId' : UInt32} (hne : sessionId' ≠ sessionId) (opusData : Bytes)
    (decoder : Option δ) (now : Nat) :
    (MixerAction.packet sessionId opusData decoder now).packetOf sessionId' = none := if_neg (Ne.symm hne)

theorem sounds_pass {a : MixerAction δ} (hsound : a.soundPcm = none) :
    (actions ++ [a]).filterMap MixerAction.soundPcm = actions.filterMap MixerAction.soundPcm := by
  rw [System.filterMap_concat, hsound, Option.toList_none, List.append_nil]

/-- A step that changes no speaker and brings no packet. -/
theorem Recalls.pass (h : m.Recalls opus config actions) {a : MixerAction δ} {m' : Mixer δ}
    (hspeakers : m'.speakers = m.speakers) (hother : ∀ sessionId, a.packetOf sessionId = none)
    (hsounds : m'.sounds = m.sounds ++ a.soundPcm.toList) : m'.Recalls opus config (actions ++ [a]) := by
  refine ⟨fun sessionId state hstate => ?_, ?_⟩
  · rw [hspeakers] at hstate
    exact (h.speakers sessionId state hstate).pass (hother sessionId)
  · rw [hsounds, h.sounds, System.filterMap_concat]

theorem Recalls.insert (h : m.Recalls opus config actions) {a : MixerAction δ} {opusData : Bytes}
    {decoder : Option δ} (ha : a = .packet sessionId opusData decoder now)
    (hstate : RecallsSpeaker opus config (actions ++ [a]) sessionId state.history) :
    Recalls opus config (actions ++ [a]) { m with speakers := m.speakers.insert sessionId state } := by
  refine ⟨fun sessionId' state' hstate' => ?_, ?_⟩
  · rw [FiniteMap.lookup_insert] at hstate'
    split at hstate'
    · subst sessionId'
      cases hstate'
      exact hstate
    · rename_i hne
      rw [ha]
      exact (h.speakers sessionId' state' hstate').pass (packetOf_packet_of_ne hne opusData decoder now)
  · rw [ha, sounds_pass rfl]
    exact h.sounds

/-- The packet is kept by the speaker it creates or finds. -/
theorem Recalls.packet (h : m.Recalls opus config actions)
    (htrace : (mixedDecoder opus config).Trace System.anyStep actions m) (sessionId : UInt32) (opusData : Bytes)
    (decoder : Option δ) (now : Nat) :
    (m.packet config sessionId opusData decoder now).Recalls opus config
      (actions ++ [.packet sessionId opusData decoder now]) := by
  unfold Mixer.packet
  split
  · rename_i state hstate
    obtain ⟨taken, htaken⟩ := SpeakerState.history_receive config.maxPacketsPerSpeaker state opusData now
    refine h.insert rfl ?_
    rw [htaken]
    refine (h.speakers sessionId state hstate).concat _ rfl rfl ?_
    rw [packetOf_packet, Option.toList_some]
  · rename_i hunknown
    cases decoder with
    | none =>
      refine ⟨fun sessionId' state hstate => ?_, ?_⟩
      · have hne : sessionId' ≠ sessionId := by
          rintro rfl
          rw [hunknown] at hstate
          cases hstate
        exact (h.speakers sessionId' state hstate).pass (packetOf_packet_of_ne hne opusData none now)
      · rw [sounds_pass rfl]
        exact h.sounds
    | some decoder =>
      obtain ⟨taken, htaken⟩ := SpeakerState.history_receive config.maxPacketsPerSpeaker
        ⟨decoder, [], [], now, ⟨decoder, m.emitted.length, [], []⟩⟩ opusData now
      refine h.insert rfl ?_
      rw [htaken]
      exact ⟨actions, opusData, now, [], m, rfl, htrace, hunknown, rfl, rfl⟩

theorem Recalls.next (h : m.Recalls opus config actions)
    (htrace : (mixedDecoder opus config).Trace System.anyStep actions m) (a : MixerAction δ) :
    (m.next opus config a).Recalls opus config (actions ++ [a]) := by
  cases a with
  | tick order now =>
    refine ⟨fun sessionId state' hstate' => ?_, ?_⟩
    · obtain ⟨state, hstate, rfl⟩ := lookup_tick state' hstate'
      exact (h.speakers sessionId state hstate).tick
    · rw [sounds_pass rfl]
      exact h.sounds
  | packet sessionId opusData decoder now => exact h.packet htrace sessionId opusData decoder now
  | packetsClosed => exact h.pass rfl (fun _ => rfl) (List.append_nil _).symm
  | sound pcm => exact h.pass rfl (fun _ => rfl) rfl
  | soundsClosed => exact h.pass rfl (fun _ => rfl) (List.append_nil _).symm

theorem recalls_of_trace (hm : (mixedDecoder opus config).Trace System.anyStep actions m) :
    m.Recalls opus config actions := by
  apply hm.invariant (I := fun actions m => m.Recalls opus config actions)
  · rintro m rfl
    refine ⟨fun sessionId state hstate => ?_, rfl⟩
    cases hstate
  · intro actions m a htrace h _ _
    exact h.next htrace a

end Mixer

/-- In every run, for every speaker, the decodings of its packets are in the frames and in `pending_pcm`, in
the order of arrival, and both queues are bounded; a speaker is removed with both empty. The sounds are in
successive frames, in their order, and the samples of the frames are the sums. The packets and the sounds are those
that the run has received. -/
theorem mixer_conserves {δ : Type} (opus : Opus δ) (config : MixerConfig) (hrate : 100 ≤ config.sampleRate)
    (hfits : opus.Fits config.maxDecodeSamples) {m : Mixer δ} (hm : (mixedDecoder opus config).Reachable m) :
    (∀ sessionId state, m.speakers.lookup sessionId = some state →
      state.Conserved opus (m.contributed sessionId state) ∧
        state.pendingPackets.length ≤ config.maxPacketsPerSpeaker ∧
        state.pendingPcm.length < config.maxDecodeSamples) ∧
    (∀ a, (mixedDecoder opus config).enabled m a → m.RemovesDone opus config a) ∧
    m.emitted.flatMap MixedFrame.sound ++ m.soundQueue = m.sounds.flatten ∧
    (∀ order now, m.PlaysSounds opus config order now) ∧
    (∀ frame ∈ m.emitted, frame.Mixes config.frameSamples) ∧
    ∀ actions, (mixedDecoder opus config).Trace System.anyStep actions m → m.Recalls opus config actions := by
  have hframe : 0 < config.frameSamples := by
    unfold MixerConfig.frameSamples frameDurationMs
    omega
  have h := Mixer.accounted_of_reachable hfits hframe hm
  refine ⟨?_, fun a henabled => Mixer.removesDone h henabled, h.sounds, Mixer.playsSounds m, h.frames,
    fun actions => Mixer.recalls_of_trace⟩
  intro sessionId state hstate
  have hspeaker := h.speakers sessionId state hstate
  exact ⟨hspeaker.conserved, hspeaker.bounded⟩

/-- The packets of 10 ms without a payload, which decode to silence. -/
def silentOpus : Opus Unit where
  decode decoder opusData := (if opusData = [0xF0] then some (List.replicate 80 0) else none, decoder)

theorem fits_silentOpus {n : Nat} (hn : 80 ≤ n) : silentOpus.Fits n := by
  intro decoder opusData decoded hdecoded
  simp only [silentOpus] at hdecoded
  split at hdecoded
  · cases hdecoded
    rw [List.length_replicate]
    exact hn
  · cases hdecoded

/-- Two packets and a chime, and then nothing for six seconds. -/
theorem mixer_conserves_idle : ∃ m, (mixedDecoder silentOpus ⟨8000, 3⟩).Reachable m ∧
    (m.emitted.length = 2 ∧ m.speakers.lookup 5 = none) ∧
    m.emitted.flatMap MixedFrame.sound ++ m.soundQueue = m.sounds.flatten ∧
    ∃ actions, (mixedDecoder silentOpus ⟨8000, 3⟩).Trace System.anyStep actions m ∧
      m.sounds = actions.filterMap MixerAction.soundPcm := by
  obtain ⟨m, hm, hdone⟩ := System.exists_reaches_of_run (mixedDecoder silentOpus ⟨8000, 3⟩)
    System.anyStep (s := .start) rfl
    [.packet 5 [0xF0] (some ()) 0, .packet 5 [0xF0] none 0, .sound [1, -1], .tick [5] 0, .tick [5] 0,
      .tick [5] (6 * 10 ^ 9)]
    (fun m => decide (m.emitted.length = 2) && (m.speakers.lookup 5).isNone) (by decide)
  have hfits : silentOpus.Fits (MixerConfig.maxDecodeSamples ⟨8000, 3⟩) := by
    intro decoder opusData decoded hdecoded
    simp only [silentOpus] at hdecoded
    split at hdecoded
    · cases hdecoded
      decide
    · cases hdecoded
  rw [Bool.and_eq_true, decide_eq_true_iff, Option.isNone_iff_eq_none] at hdone
  obtain ⟨_, _, hsounds, _, _, hrecalls⟩ := mixer_conserves silentOpus ⟨8000, 3⟩ (by decide) hfits hm
  obtain ⟨actions, htrace⟩ := hm.exists_trace
  exact ⟨m, hm, hdone, hsounds, actions, htrace, (hrecalls actions htrace).sounds⟩

end MumbleSip
