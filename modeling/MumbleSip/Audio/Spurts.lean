import MumbleSip.Audio.Encoder

/-!
# Talk spurts on the wire

The gate moves on whatever becomes of its terminator. If the terminator is not encoded, or meets a full queue,
the spurt before it is not ended for whoever receives the packets.
-/

namespace MumbleSip

namespace EncoderInput

variable {input : EncoderInput} {m n t : Nat}

/-- The queue has taken a packet for frame `n`, with this `end_of_transmission`. -/
def accepted (input : EncoderInput) (n : Nat) (endOfTransmission : Bool) : Bool :=
  (input.sent n).any fun sent => sent.2 = .ok && sent.1.endOfTransmission = endOfTransmission

/-- What holds of the packets taken for the first `N` frames: a terminator lies between a voice packet and the
packets of later spurts, and where the gate is silent the last packet is a terminator, if there is a voice
packet at all. -/
structure Terminated (input : EncoderInput) (N : Nat) : Prop where
  between : ∀ m n, n < N → input.accepted m false = true → input.delivered n = true →
    (∃ t, m < t ∧ t < n ∧ input.transmit t = some .terminator) →
      ∃ i, m < i ∧ i < n ∧ input.accepted i true = true
  silent : ∀ n ≤ N, (input.encoder n).gate.wasTransmitting = false →
    (∃ m < n, input.accepted m false = true) →
      ∃ m < n, input.accepted m true = true ∧ ∀ i, m < i → i < n → input.delivered i = false

/-- Frame `t` ends a spurt of which the queue has taken a voice packet. -/
def EndsSpurt (input : EncoderInput) (t : Nat) : Prop :=
  input.transmit t = some .terminator ∧
    ∃ m < t, input.accepted m false = true ∧ ∀ k, m < k → k < t → input.transmit k ≠ some .terminator

/-! ### Packets and the gate -/

theorem transmit_of_sent {frame : OpusFrame} {result : SendResult} (h : input.sent n = some (frame, result)) :
    frame.endOfTransmission = false ∧ input.transmit n = some .transmitting ∨
      frame.endOfTransmission = true ∧ input.transmit n = some .terminator := by
  have hopen := open_of_sent h
  rw [sent_of_open hopen, offer] at h
  rw [transmit_of_open hopen]
  cases hstate : (input.transmitState (input.encoder n) (input.frames n)).1 with
  | transmitting =>
    rw [hstate] at h
    obtain ⟨opusData, _, heq⟩ := Option.map_eq_some_iff.1 h
    rw [← (Prod.mk.inj heq).1]
    exact .inl ⟨rfl, rfl⟩
  | terminator =>
    rw [hstate] at h
    obtain ⟨opusData, _, heq⟩ := Option.map_eq_some_iff.1 h
    rw [← (Prod.mk.inj heq).1]
    exact .inr ⟨rfl, rfl⟩
  | silent =>
    rw [hstate] at h
    cases h

theorem accepted_iff {endOfTransmission : Bool} : input.accepted n endOfTransmission = true ↔
    ∃ frame, input.sent n = some (frame, .ok) ∧ frame.endOfTransmission = endOfTransmission := by
  unfold accepted
  rw [Option.any_eq_true]
  constructor
  · rintro ⟨⟨frame, result⟩, hsent, hboth⟩
    obtain ⟨hresult, heot⟩ := Bool.and_eq_true_iff.1 hboth
    have hok : result = .ok := of_decide_eq_true hresult
    subst hok
    exact ⟨frame, hsent, of_decide_eq_true heot⟩
  · rintro ⟨frame, hsent, heot⟩
    refine ⟨_, hsent, ?_⟩
    simp only [heot, decide_true, Bool.and_self]

theorem delivered_iff : input.delivered n = true ↔
    input.accepted n false = true ∨ input.accepted n true = true := by
  rw [accepted_iff, accepted_iff, delivered, Option.any_eq_true]
  constructor
  · rintro ⟨⟨frame, result⟩, hsent, hresult⟩
    have hok : result = .ok := of_decide_eq_true hresult
    subst hok
    cases heot : frame.endOfTransmission with
    | false => exact .inl ⟨frame, hsent, heot⟩
    | true => exact .inr ⟨frame, hsent, heot⟩
  · rintro (⟨frame, hsent, _⟩ | ⟨frame, hsent, _⟩) <;>
      exact ⟨_, hsent, rfl⟩

theorem transmit_of_voice (h : input.accepted n false = true) :
    input.transmit n = some .transmitting := by
  obtain ⟨frame, hsent, heot⟩ := accepted_iff.1 h
  rcases transmit_of_sent hsent with ⟨_, htransmit⟩ | ⟨heot', _⟩
  · exact htransmit
  · rw [heot] at heot'
    cases heot'

theorem transmit_of_terminator (h : input.accepted n true = true) :
    input.transmit n = some .terminator := by
  obtain ⟨frame, hsent, heot⟩ := accepted_iff.1 h
  rcases transmit_of_sent hsent with ⟨heot', _⟩ | ⟨_, htransmit⟩
  · rw [heot] at heot'
    cases heot'
  · exact htransmit

theorem accepted_terminator (htransmit : input.transmit t = some .terminator)
    (hdelivered : input.delivered t = true) : input.accepted t true = true := by
  apply (delivered_iff.1 hdelivered).resolve_left
  intro hvoice
  rw [transmit_of_voice hvoice] at htransmit
  cases htransmit

theorem delivered_terminator_iff (htransmit : input.transmit t = some .terminator) :
    input.delivered t = true ↔
      ((input.frames t).encode (List.replicate input.frameSamples 0)).isSome = true ∧
        (input.frames t).trySend = .ok := by
  have hopen := open_of_transmit htransmit
  rw [delivered, (sent_eq hopen).2.1 ((transmit_terminator hopen).1 htransmit)]
  cases (input.frames t).encode (List.replicate input.frameSamples 0) <;> simp

/-- `was_transmitting` after a frame. -/
def wasTransmittingAfter (before : Bool) : TransmitState → Bool
  | .transmitting => true
  | .terminator => false
  | .silent => before

theorem wasTransmitting_succ {state : TransmitState} (h : input.transmit n = some state) :
    (input.encoder (n + 1)).gate.wasTransmitting
      = wasTransmittingAfter (input.encoder n).gate.wasTransmitting state := by
  have hopen := open_of_transmit h
  rw [transmit_of_open hopen, Option.some_inj] at h
  rw [encoder_succ hopen]
  show (input.transmitState (input.encoder n) (input.frames n)).2.wasTransmitting = _
  rw [← h]
  unfold transmitState Gate.transmitState
  split
  · rfl
  · split
    · rename_i hmore
      exact (Bool.and_eq_true_iff.1 hmore).1
    · split <;> rfl

theorem exists_terminator (hle : m ≤ n) (hfirst : (input.encoder m).gate.wasTransmitting = true)
    (hlast : (input.encoder n).gate.wasTransmitting = false) :
    ∃ t, m ≤ t ∧ t < n ∧ input.transmit t = some .terminator := by
  induction n with
  | zero =>
    rw [Nat.le_zero.1 hle, hlast] at hfirst
    cases hfirst
  | succ n ih =>
    rcases Nat.le_succ_iff.1 hle with hle' | heq
    · cases hopen : (input.encoder n).gate.wasTransmitting with
      | false =>
        obtain ⟨t, hmt, htn, ht⟩ := ih hle' hopen
        exact ⟨t, hmt, Nat.lt_succ_of_lt htn, ht⟩
      | true =>
        refine ⟨n, hle', Nat.lt_succ_self n, ?_⟩
        cases htransmit : input.transmit n with
        | none =>
          cases hclosed : (input.encoder n).closed with
          | true =>
            simp only [encoder, hclosed, if_true] at hlast
            rw [hopen] at hlast
            cases hlast
          | false =>
            rw [transmit_of_open hclosed] at htransmit
            cases htransmit
        | some state =>
          have hsucc := wasTransmitting_succ htransmit
          rw [hlast] at hsucc
          cases state with
          | terminator => rfl
          | transmitting => cases hsucc
          | silent =>
            rw [hopen] at hsucc
            cases hsucc
    · rw [heq, hlast] at hfirst
      cases hfirst

/-- The first terminator after a voice packet ends its spurt. -/
theorem exists_endsSpurt (hvoice : input.accepted m false = true) (hmt : m < t)
    (ht : input.transmit t = some .terminator) : ∃ t', m < t' ∧ t' ≤ t ∧ input.EndsSpurt t' := by
  induction t using Nat.strong_induction_on with
  | _ t ih =>
    by_cases hnone : ∀ k, m < k → k < t → input.transmit k ≠ some .terminator
    · exact ⟨t, hmt, Nat.le_refl t, ht, m, hmt, hvoice, hnone⟩
    · push Not at hnone
      obtain ⟨k, hmk, hkt, hk⟩ := hnone
      obtain ⟨t', hmt', htk, hends⟩ := ih k hkt hmk hk
      exact ⟨t', hmt', by omega, hends⟩

theorem exists_last_delivered (hdelivered : input.delivered m = true) (hlt : m < n) :
    ∃ p, m ≤ p ∧ p < n ∧ input.delivered p = true ∧ ∀ i, p < i → i < n → input.delivered i = false := by
  induction n with
  | zero => exact absurd hlt (Nat.not_lt_zero m)
  | succ n ih =>
    cases hn : input.delivered n with
    | true => exact ⟨n, Nat.le_of_lt_succ hlt, Nat.lt_succ_self n, hn, fun i hi hi' => by omega⟩
    | false =>
      have hne : m ≠ n := by
        rintro rfl
        rw [hdelivered] at hn
        cases hn
      obtain ⟨p, hmp, hpn, hp, hlast⟩ := ih (by omega)
      refine ⟨p, hmp, Nat.lt_succ_of_lt hpn, hp, fun i hi hi' => ?_⟩
      rcases Nat.lt_succ_iff_lt_or_eq.1 hi' with hlt' | heq
      · exact hlast i hi hlt'
      · rw [heq]
        exact hn

end EncoderInput

open EncoderInput in
/-- The packets the queue takes keep the spurts apart, and end each spurt, exactly if the terminator of every
spurt of which it has taken a voice packet is encoded and finds room in the queue. -/
theorem terminated_iff (input : EncoderInput) (N : Nat) :
    input.Terminated N ↔ ∀ t < N, input.EndsSpurt t →
      ((input.frames t).encode (List.replicate input.frameSamples 0)).isSome = true ∧
        (input.frames t).trySend = .ok := by
  constructor
  · intro h t ht hends
    obtain ⟨htransmit, m, hmt, hvoice, hsame⟩ := hends
    rw [← delivered_terminator_iff htransmit]
    by_contra hnot
    -- the gate is silent after the terminator, which the queue has not taken
    obtain ⟨p, hp, hterminator, hlast⟩ := h.silent (t + 1) ht (wasTransmitting_succ htransmit)
      ⟨m, by omega, hvoice⟩
    have hpt : p ≠ t := by
      rintro rfl
      exact hnot (delivered_iff.2 (.inr hterminator))
    have hmp : m < p := by
      rcases Nat.lt_trichotomy m p with hlt | heq | hgt
      · exact hlt
      · subst heq
        have htransmit' := transmit_of_terminator hterminator
        rw [transmit_of_voice hvoice] at htransmit'
        cases htransmit'
      · have hfalse := hlast m hgt (by omega)
        rw [delivered_iff.2 (.inl hvoice)] at hfalse
        cases hfalse
    exact hsame p hmp (by omega) (transmit_of_terminator hterminator)
  · intro hall
    have h : ∀ t < N, input.EndsSpurt t → input.delivered t = true := fun t ht hends =>
      (delivered_terminator_iff hends.1).2 (hall t ht hends)
    refine ⟨fun m n hn hvoice _ hlater => ?_, fun n hn hsilent hvoice => ?_⟩
    · obtain ⟨t, hmt, htn, ht⟩ := hlater
      obtain ⟨t', hmt', htt', hends⟩ := exists_endsSpurt hvoice hmt ht
      exact ⟨t', hmt', by omega, accepted_terminator hends.1 (h t' (by omega) hends)⟩
    · obtain ⟨m, hm, hvoice⟩ := hvoice
      obtain ⟨p, _, hpn, hp, hlast⟩ := exists_last_delivered (delivered_iff.2 (.inl hvoice)) hm
      refine ⟨p, hpn, (delivered_iff.1 hp).resolve_left fun hpvoice => ?_, hlast⟩
      -- a voice packet is followed by the terminator of its spurt
      obtain ⟨t, hpt, htn, ht⟩ := exists_terminator (m := p + 1) hpn
        (wasTransmitting_succ (transmit_of_voice hpvoice)) hsilent
      obtain ⟨t', hpt', htt', hends⟩ := exists_endsSpurt hpvoice hpt ht
      have hfalse := hlast t' hpt' (by omega)
      rw [h t' (by omega) hends] at hfalse
      cases hfalse

/-- The same word, on a queue that is full for its terminator. -/
def cutWord : EncoderInput :=
  { oneWord with frames := fun n => { oneWord.frames n with trySend := if n = 21 then .full else .ok } }

/-- The terminator is dropped, the gate is silent, and the last packet taken is a voice packet. -/
theorem word_not_terminated : ¬∀ (input : EncoderInput) (N : Nat), (input.encoder N).closed = false →
    input.Terminated N := by
  intro hclaim
  have h := hclaim cutWord 25 (by decide +kernel)
  obtain ⟨m, hm, hterminator, _⟩ := h.silent 25 (Nat.le_refl 25) (by decide +kernel)
    ⟨0, by decide, by decide +kernel⟩
  have hnone : ∀ m < 25, cutWord.accepted m true = false := by decide +kernel
  rw [hnone m hm] at hterminator
  cases hterminator

end MumbleSip
