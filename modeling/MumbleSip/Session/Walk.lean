import MumbleSip.Session.ChannelNames

/-!
# The caller's walk through the channels

The rejoin step and the DTMF digits move within the numbers up to the largest channel id of the handshake,
whether or not there are channels under these numbers.
-/

namespace MumbleSip

open Transition

namespace ChannelSession

variable {session : ChannelSession} {digit : Char} {sent : Bool}

/-- What a digit does to the channel: its sum has a value, it goes up on `#` and down on `*` and not past the
largest channel, and it changes the channel only through a join. -/
structure StaysInRange (session : ChannelSession) (digit : Char) (sent : Bool) : Prop where
  sum : digit = '#' → session.currentChannelId.toNat + 1 < UInt32.size
  up : digit = '#' → session.currentChannelId ≤ session.navigate digit
  down : digit = '*' → session.navigate digit ≤ session.currentChannelId
  bound : (session.onDtmfDigit digit sent).1.currentChannelId ≤ session.maxChannelId
  joined : (session.onDtmfDigit digit sent).1.currentChannelId ≠ session.currentChannelId →
    sent = true ∧ (session.onDtmfDigit digit sent).2.1 = some (session.onDtmfDigit digit sent).1.currentChannelId

theorem toNat_navigate_star (session : ChannelSession) :
    (session.navigate '*').toNat = session.currentChannelId.toNat - 1 := by
  rw [navigate, if_pos rfl, saturatingSub]
  split_ifs with hfirst
  · have hle : session.currentChannelId.toNat ≤ 1 := UInt32.le_iff_toNat_le.1 hfirst
    rw [Nat.sub_eq_zero_of_le hle]
    rfl
  · have hle : 1 ≤ session.currentChannelId := (UInt32.le_total _ _).resolve_left hfirst
    exact UInt32.toNat_sub_of_le _ _ hle

theorem toNat_navigate_hash (hsum : session.currentChannelId.toNat + 1 < UInt32.size) :
    (session.navigate '#').toNat = min (session.currentChannelId.toNat + 1) session.maxChannelId.toNat := by
  have hadd : (session.currentChannelId + 1).toNat = session.currentChannelId.toNat + 1 := by
    rw [UInt32.toNat_add]
    exact Nat.mod_eq_of_lt hsum
  rw [navigate, if_neg (by decide), UInt32.toNat_min, hadd]

theorem navigate_hash_of_size (hsum : session.currentChannelId.toNat + 1 = UInt32.size) :
    session.navigate '#' = 0 := by
  have hzero : session.currentChannelId + 1 = 0 := by
    apply UInt32.toNat_inj.1
    rw [UInt32.toNat_add]
    exact (congrArg (· % 2 ^ 32) hsum).trans rfl
  rw [navigate, if_neg (by decide), hzero, ← UInt32.toNat_inj, UInt32.toNat_min]
  exact Nat.zero_min _

theorem navigate_le_max (hle : session.currentChannelId ≤ session.maxChannelId) (digit : Char) :
    session.navigate digit ≤ session.maxChannelId := by
  unfold navigate
  split_ifs with hstar
  · have hnavigate := toNat_navigate_star session
    rw [navigate, if_pos rfl] at hnavigate
    rw [UInt32.le_iff_toNat_le] at hle ⊢
    omega
  · rw [UInt32.le_iff_toNat_le, UInt32.toNat_min]
    exact Nat.min_le_right _ _

theorem onDtmfDigit_le_max (hle : session.currentChannelId ≤ session.maxChannelId) (digit : Char) (sent : Bool) :
    (session.onDtmfDigit digit sent).1.currentChannelId ≤ session.maxChannelId := by
  rcases Navigation.onDtmfDigit_cases session digit sent with ⟨hsession, _⟩ | ⟨_, _, hsession, _⟩
  · rw [hsession]
    exact hle
  · rw [hsession]
    exact navigate_le_max hle digit

/-- Only the sum can go wrong. -/
theorem staysInRange_iff (hle : session.currentChannelId ≤ session.maxChannelId) (digit : Char) (sent : Bool) :
    session.StaysInRange digit sent ↔ ¬(digit = '#' ∧ session.currentChannelId.toNat + 1 = UInt32.size) := by
  constructor
  · rintro h ⟨hdigit, hsize⟩
    exact absurd (h.sum hdigit) (Nat.not_lt.2 hsize.ge)
  · intro hnot
    have hsum : digit = '#' → session.currentChannelId.toNat + 1 < UInt32.size := fun hdigit =>
      Nat.lt_of_le_of_ne session.currentChannelId.toNat_lt_size fun heq => hnot ⟨hdigit, heq⟩
    refine ⟨hsum, ?_, ?_, onDtmfDigit_le_max hle digit sent, ?_⟩
    · rintro rfl
      have hnavigate := toNat_navigate_hash (hsum rfl)
      rw [UInt32.le_iff_toNat_le] at hle ⊢
      omega
    · rintro rfl
      rw [UInt32.le_iff_toNat_le, toNat_navigate_star]
      exact Nat.sub_le _ _
    · intro hmoved
      rcases Navigation.onDtmfDigit_cases session digit sent with ⟨hsession, _⟩ | ⟨_, hsent, hsession, hjoin⟩
      · rw [hsession] at hmoved
        exact absurd rfl hmoved
      · rw [hsession, hjoin]
        exact ⟨hsent, rfl⟩

end ChannelSession

/-! ### The channels of the handshake -/

/-- The ids of the channels that the server announces in the handshake. -/
def announcedChannels (packets : List HandshakePacket) : List ChannelId :=
  ((Handshake.read packets).filterMap HandshakePacket.channelPacket).map ChannelPacket.channelId

/-- What the loop keeps of the channels: the target is one of them, and the largest id bounds them. -/
structure Handshake.Ranges (announced : List ChannelId) (h : Handshake) : Prop where
  target : ∀ c, h.targetChannelId = some c → c ∈ announced
  le_max : ∀ c ∈ announced, c ≤ h.maxChannelId
  max_mem : h.maxChannelId ∈ announced ∨ h.maxChannelId = 0

theorem Handshake.Ranges.packet {announced : List ChannelId} {channel : String} {h h' : Handshake}
    {packet : HandshakePacket} (hranges : h.Ranges announced) (hpacket : h.packet channel packet = .ok h') :
    h'.Ranges (announced ++ packet.channelPacket.toList.map ChannelPacket.channelId) := by
  cases packet with
  | cryptSetup key clientNonce serverNonce =>
    rw [Handshake.packet_cryptSetup hpacket]
    simpa only [HandshakePacket.channelPacket, Option.toList_none, List.map_nil, List.append_nil] using hranges
  | channelState channelId name =>
    cases hpacket
    refine ⟨fun c hc => ?_, fun c hc => ?_, ?_⟩
    · simp only at hc
      split_ifs at hc
      · cases hc
        exact List.mem_append_right _ List.mem_cons_self
      · exact List.mem_append_left _ (hranges.target c hc)
    · rw [UInt32.le_iff_toNat_le, UInt32.toNat_max]
      rcases List.mem_append.1 hc with hold | hnew
      · exact (UInt32.le_iff_toNat_le.1 (hranges.le_max c hold)).trans (Nat.le_max_left _ _)
      · rw [List.mem_singleton.1 hnew]
        exact Nat.le_max_right _ _
    · show max h.maxChannelId (channelId.getD 0) ∈ _ ∨ max h.maxChannelId (channelId.getD 0) = 0
      rcases UInt32.le_total h.maxChannelId (channelId.getD 0) with hle | hle
      · have hmax : max h.maxChannelId (channelId.getD 0) = channelId.getD 0 := by
          rw [← UInt32.toNat_inj, UInt32.toNat_max, Nat.max_eq_right (UInt32.le_iff_toNat_le.1 hle)]
        rw [hmax]
        exact .inl (List.mem_append_right _ List.mem_cons_self)
      · have hmax : max h.maxChannelId (channelId.getD 0) = h.maxChannelId := by
          rw [← UInt32.toNat_inj, UInt32.toNat_max, Nat.max_eq_left (UInt32.le_iff_toNat_le.1 hle)]
        rw [hmax]
        exact hranges.max_mem.imp_left (List.mem_append_left _)
  | reject msg => cases hpacket
  | failed error => cases hpacket
  | _ =>
    cases hpacket
    simp only [HandshakePacket.channelPacket, Option.toList_none, List.map_nil, List.append_nil]
    exact ⟨hranges.target, hranges.le_max, hranges.max_mem⟩

theorem ranges_of_connect {channel : String} {packets : List HandshakePacket} {joined : Except String Unit}
    {client : MumbleClient} {userNames : UserNames}
    (hconnect : MumbleClient.connect channel packets joined = .ok (client, userNames)) :
    Handshake.Ranges (announcedChannels packets)
      ⟨some client.sessionId, client.targetChannelId, client.maxChannelId, client.channelNames, userNames⟩ := by
  refine MumbleClient.connect_induction (P := fun before h =>
    h.Ranges ((before.filterMap HandshakePacket.channelPacket).map ChannelPacket.channelId)) ?_ ?_ hconnect
  · exact ⟨nofun, nofun, .inr rfl⟩
  · intro before h packet h' hranges hpacket
    have hnext := hranges.packet hpacket
    rw [List.filterMap_append, List.map_append]
    cases hchannel : packet.channelPacket with
    | none =>
      rw [hchannel] at hnext
      rw [List.filterMap_cons_none hchannel]
      exact hnext
    | some p =>
      rw [hchannel] at hnext
      rw [List.filterMap_cons_some hchannel]
      exact hnext

theorem Handshake.Ranges.channelId_le {announced : List ChannelId} {client : MumbleClient}
    {sessionId : Option SessionId} {userNames : UserNames}
    (h : Handshake.Ranges announced
      ⟨sessionId, client.targetChannelId, client.maxChannelId, client.channelNames, userNames⟩) :
    client.channelId ≤ client.maxChannelId := by
  unfold MumbleClient.channelId
  cases htarget : client.targetChannelId with
  | none => exact UInt32.zero_le
  | some target => exact h.le_max target (h.target target htarget)

theorem rejoin_le_max {client : MumbleClient} (hle : client.channelId ≤ client.maxChannelId)
    (lastChannelId : Option ChannelId) (sent : Bool) :
    (rejoin client lastChannelId sent).1 ≤ client.maxChannelId := by
  unfold rejoin
  split
  · split_ifs with hrejoin
    · exact hrejoin.1
    · exact hle
  · exact hle

namespace Naming

variable {s : Naming}

/-- The ids of the channels that the server has announced in the handshake. -/
def announced (s : Naming) : List ChannelId := s.handshake.map ChannelPacket.channelId

/-- The session stays within the ids of the handshake. -/
structure Ranges (s : Naming) : Prop where
  current_le : s.session.session.currentChannelId ≤ s.session.session.maxChannelId
  le_max : ∀ c ∈ s.announced, c ≤ s.session.session.maxChannelId
  max_mem : s.session.session.maxChannelId ∈ s.announced ∨ s.session.session.maxChannelId = 0

theorem Ranges.next (h : s.Ranges) (a : NavigationAction) : (s.next a).Ranges := by
  obtain ⟨hmax, hcurrent⟩ := Navigation.session_next s.session a
  have hmax : (s.next a).session.session.maxChannelId = s.session.session.maxChannelId := hmax
  refine ⟨?_, ?_, ?_⟩
  · rw [hmax]
    rcases hcurrent with hsame | ⟨digit, sent, _, hsession⟩
    · show (s.session.next a).session.currentChannelId ≤ _
      rw [hsame]
      exact h.current_le
    · show (s.session.next a).session.currentChannelId ≤ _
      rw [hsession]
      exact ChannelSession.onDtmfDigit_le_max h.current_le digit sent
  · rw [hmax]
    exact h.le_max
  · rw [hmax]
    exact h.max_mem

theorem ranges_of_reachable (hs : naming.Reachable s) : s.Ranges := by
  apply hs.invariant (I := Ranges)
  · rintro s ⟨channel, packets, joined, client, userNames, lastChannelId, sent, ttsEnabled, announceOnConnect,
      callerNumber, serverHost, serverChannel, hconnect, rfl⟩
    have hranges := ranges_of_connect hconnect
    exact ⟨rejoin_le_max hranges.channelId_le lastChannelId sent, hranges.le_max, hranges.max_mem⟩
  · intro s a _ h _ _
    exact h.next a

end Naming

/-! ### The range -/

/-- In every run, the session stays within the largest channel id of the handshake, and a digit does what it should
exactly if it is not `#` in the channel with the largest id there is. -/
theorem navigation_in_range_iff {s : Naming} (hs : naming.Reachable s) :
    s.session.session.currentChannelId ≤ s.session.session.maxChannelId ∧
      ∀ digit sent, s.session.session.StaysInRange digit sent ↔
        ¬(digit = '#' ∧ s.session.session.currentChannelId.toNat + 1 = UInt32.size) :=
  have hle := (Naming.ranges_of_reachable hs).current_le
  ⟨hle, fun digit sent => ChannelSession.staysInRange_iff hle digit sent⟩

theorem namedSession_in_range : namedSession.session.session.StaysInRange '#' true :=
  ((navigation_in_range_iff (System.Reaches.init namedSession_init)).2 '#' true).2 (by decide)

/-- A session that has asked to join the channel with the largest id there is. -/
def lastIdSession : Naming :=
  let client : MumbleClient := ⟨1, some 4294967295, 4294967295,
    (∅ : FiniteMap ChannelId String).insert 4294967295 "Top"⟩
  { session := .established client ∅ none true true none "mumble.example.com" 0
    handshake := [⟨4294967295, some "Top"⟩]
    pending := []
    taken := [⟨4294967295, some "Top"⟩]
    opening := connectOutput client 4294967295 true true }

theorem lastIdSession_init : naming.init lastIdSession :=
  ⟨"Top", [.channelState (some 4294967295) (some "Top"), .serverSync (some 1)], .ok (), _, ∅, none, true, true,
    true, none, "mumble.example.com", 0, rfl, rfl⟩

/-- There the sum has no value. -/
theorem hash_overflows : ¬∀ s, naming.Reachable s →
    s.session.session.currentChannelId ≤ s.session.session.maxChannelId ∧
      ∀ digit sent, s.session.session.StaysInRange digit sent := by
  intro hclaim
  have hrange := (hclaim lastIdSession (System.Reaches.init lastIdSession_init)).2 '#' true
  exact absurd (hrange.sum rfl) (by decide)

/-! ### The announced channels -/

/-- The walk goes to an announced channel, and to the nearest one if there is one in its direction. -/
structure WalksTo (announced : List ChannelId) (current : ChannelId) (digit : Char) (c : ChannelId) : Prop where
  mem : c ∈ announced
  up : digit = '#' → (∃ a ∈ announced, current < a) → current < c ∧ ∀ a ∈ announced, current < a → c ≤ a
  down : digit = '*' → (∃ a ∈ announced, a < current) → c < current ∧ ∀ a ∈ announced, a < current → a ≤ c

/-- The next number in the direction of the digit is announced, or the channel itself if there is none. -/
def NextAnnounced (announced : List ChannelId) (session : ChannelSession) (digit : Char) : Prop :=
  if digit = '*' then
    if session.currentChannelId = 0 then 0 ∈ announced else session.currentChannelId - 1 ∈ announced
  else if session.currentChannelId < session.maxChannelId then session.currentChannelId + 1 ∈ announced
  else if session.currentChannelId.toNat + 1 = UInt32.size then 0 ∈ announced
  else session.currentChannelId ∈ announced

instance (announced : List ChannelId) (session : ChannelSession) (digit : Char) :
    Decidable (NextAnnounced announced session digit) :=
  inferInstanceAs (Decidable (ite (digit = '*') (ite (session.currentChannelId = 0) _ _)
    (ite (session.currentChannelId < session.maxChannelId) _
      (ite (session.currentChannelId.toNat + 1 = UInt32.size) _ _))))

/-- The caller's last channel is announced, unless it is the initial one or above all that are announced. -/
def LastAnnounced (announced : List ChannelId) (client : MumbleClient) (lastChannelId : Option ChannelId) : Prop :=
  ∀ c, lastChannelId = some c → (c = 0 ∨ ∃ a ∈ announced, c ≤ a) → c ≠ client.channelId → c ∈ announced

namespace ChannelSession

variable {session : ChannelSession} {announced : List ChannelId}

theorem navigate_star_of_ne (hne : session.currentChannelId ≠ 0) :
    session.navigate '*' = session.currentChannelId - 1 := by
  have hpos : 1 ≤ session.currentChannelId := by
    rw [UInt32.le_iff_toNat_le]
    exact Nat.one_le_iff_ne_zero.2 fun hzero => hne (UInt32.toNat_inj.1 hzero)
  rw [← UInt32.toNat_inj, toNat_navigate_star, UInt32.toNat_sub_of_le _ _ hpos]
  rfl

theorem navigate_hash_of_lt (hlt : session.currentChannelId < session.maxChannelId) :
    session.navigate '#' = session.currentChannelId + 1 := by
  rw [UInt32.lt_iff_toNat_lt] at hlt
  have hsize := session.maxChannelId.toNat_lt_size
  have hsum : session.currentChannelId.toNat + 1 < UInt32.size := by omega
  rw [← UInt32.toNat_inj, toNat_navigate_hash hsum, UInt32.toNat_add, Nat.min_eq_left hlt]
  exact (Nat.mod_eq_of_lt hsum).symm

theorem navigate_hash_of_eq (heq : session.currentChannelId = session.maxChannelId)
    (hsum : session.currentChannelId.toNat + 1 ≠ UInt32.size) :
    session.navigate '#' = session.currentChannelId := by
  have hsize := session.currentChannelId.toNat_lt_size
  rw [← UInt32.toNat_inj, toNat_navigate_hash (by omega), ← heq]
  exact Nat.min_eq_right (Nat.le_succ _)

theorem nextAnnounced_iff (hle : session.currentChannelId ≤ session.maxChannelId) {digit : Char}
    (hdigit : digit = '*' ∨ digit = '#') :
    NextAnnounced announced session digit ↔ session.navigate digit ∈ announced := by
  unfold NextAnnounced
  rcases hdigit with rfl | rfl
  · rw [if_pos rfl]
    split_ifs with hzero
    · have hnavigate : session.navigate '*' = 0 := by
        rw [← UInt32.toNat_inj, toNat_navigate_star, hzero]
        rfl
      rw [hnavigate]
    · rw [navigate_star_of_ne hzero]
  · rw [if_neg (by decide)]
    split_ifs with hlt hsize
    · rw [navigate_hash_of_lt hlt]
    · rw [navigate_hash_of_size hsize]
    · have heq : session.currentChannelId = session.maxChannelId :=
        UInt32.le_antisymm hle (UInt32.not_lt.1 hlt)
      rw [navigate_hash_of_eq heq hsize]

/-- From an announced target it follows that the target is the nearest. -/
theorem walksTo_of_mem (hmax : ∀ c ∈ announced, c ≤ session.maxChannelId) {digit : Char}
    (hmem : session.navigate digit ∈ announced) :
    WalksTo announced session.currentChannelId digit (session.navigate digit) := by
  refine ⟨hmem, ?_, ?_⟩
  · rintro rfl ⟨a, ha, hlt⟩
    rw [UInt32.lt_iff_toNat_lt] at hlt
    have hamax := UInt32.le_iff_toNat_le.1 (hmax a ha)
    have hsum : session.currentChannelId.toNat + 1 < UInt32.size := by
      have := a.toNat_lt_size
      omega
    have hnavigate := toNat_navigate_hash hsum
    refine ⟨?_, fun b _ hb => ?_⟩
    · rw [UInt32.lt_iff_toNat_lt]
      omega
    · rw [UInt32.lt_iff_toNat_lt] at hb
      rw [UInt32.le_iff_toNat_le]
      omega
  · rintro rfl ⟨a, _, hlt⟩
    rw [UInt32.lt_iff_toNat_lt] at hlt
    have hnavigate := toNat_navigate_star session
    refine ⟨?_, fun b _ hb => ?_⟩
    · rw [UInt32.lt_iff_toNat_lt]
      omega
    · rw [UInt32.lt_iff_toNat_lt] at hb
      rw [UInt32.le_iff_toNat_le]
      omega

end ChannelSession

theorem rejoin_announced_iff {announced : List ChannelId} {sessionId : Option SessionId} {client : MumbleClient}
    {userNames : UserNames} (hranges : Handshake.Ranges announced
      ⟨sessionId, client.targetChannelId, client.maxChannelId, client.channelNames, userNames⟩)
    (lastChannelId : Option ChannelId) :
    (∀ c, (rejoin client lastChannelId true).2 = some c → c ∈ announced) ↔
      LastAnnounced announced client lastChannelId := by
  have hbound : ∀ c, c ≤ client.maxChannelId ↔ c = 0 ∨ ∃ a ∈ announced, c ≤ a := by
    intro c
    constructor
    · intro hle
      rcases hranges.max_mem with hmem | hzero
      · exact .inr ⟨client.maxChannelId, hmem, hle⟩
      · have hzero : client.maxChannelId = 0 := hzero
        rw [hzero] at hle
        exact .inl (UInt32.le_antisymm hle UInt32.zero_le)
    · rintro (rfl | ⟨a, ha, hle⟩)
      · exact UInt32.zero_le
      · exact UInt32.le_trans hle (hranges.le_max a ha)
  cases lastChannelId with
  | none => exact iff_of_true nofun nofun
  | some ch =>
    have hjoin : (rejoin client (some ch) true).2
        = if ch ≤ client.maxChannelId ∧ ch ≠ client.channelId then some ch else none := by
      unfold rejoin
      simp only [and_true]
      split_ifs <;> rfl
    rw [hjoin]
    unfold LastAnnounced
    by_cases hrejoin : ch ≤ client.maxChannelId ∧ ch ≠ client.channelId
    · rw [if_pos hrejoin]
      constructor
      · rintro hmem c heq _ _
        exact hmem c heq
      · rintro hlast c heq
        cases heq
        exact hlast ch rfl ((hbound ch).1 hrejoin.1) hrejoin.2
    · rw [if_neg hrejoin]
      refine iff_of_true nofun ?_
      rintro c heq hle hother
      cases heq
      exact absurd ⟨(hbound ch).2 hle, hother⟩ hrejoin

/-- The rejoin step and, in every run, the digits ask for announced channels, and for the nearest, exactly if the
numbers they come to are announced. -/
theorem walk_announced_iff (channel : String) (packets : List HandshakePacket) (joined : Except String Unit)
    (lastChannelId : Option ChannelId) (s : Naming) (digit : Char) :
    (∀ client userNames, MumbleClient.connect channel packets joined = .ok (client, userNames) →
        ((∀ c, (rejoin client lastChannelId true).2 = some c → c ∈ announcedChannels packets) ↔
          LastAnnounced (announcedChannels packets) client lastChannelId)) ∧
      (naming.Reachable s → digit = '*' ∨ digit = '#' →
        (WalksTo s.announced s.session.session.currentChannelId digit (s.session.session.navigate digit) ↔
          NextAnnounced s.announced s.session.session digit)) := by
  refine ⟨?_, ?_⟩
  · intro client userNames hconnect
    exact rejoin_announced_iff (ranges_of_connect hconnect) lastChannelId
  · intro hs hdigit
    have hranges := Naming.ranges_of_reachable hs
    rw [ChannelSession.nextAnnounced_iff hranges.current_le hdigit]
    exact ⟨WalksTo.mem, ChannelSession.walksTo_of_mem hranges.le_max⟩

theorem namedSession_walks : WalksTo namedSession.announced 0 '#' 1 :=
  ((walk_announced_iff "" [] (.ok ()) none namedSession '#').2 (System.Reaches.init namedSession_init)
    (.inr rfl)).2 (by decide)

/-- A session on a server that has deleted a channel. -/
def gapSession : Naming :=
  let client : MumbleClient := ⟨1, none, 2, AList.insert 2 "Lounge" (AList.insert 0 "Root" ∅)⟩
  { session := .established client ∅ none true true none "mumble.example.com" 0
    handshake := [⟨0, some "Root"⟩, ⟨2, some "Lounge"⟩]
    pending := []
    taken := [⟨0, some "Root"⟩, ⟨2, some "Lounge"⟩]
    opening := connectOutput client 0 true true }

theorem gapSession_init : naming.init gapSession :=
  ⟨"", [.channelState none (some "Root"), .channelState (some 2) (some "Lounge"), .serverSync (some 1)], .ok (),
    _, ∅, none, true, true, true, none, "mumble.example.com", 0, rfl, rfl⟩

/-- The next number is not the next channel. -/
theorem missing_channel_joined : ¬∀ s, naming.Reachable s → ∀ digit, digit = '*' ∨ digit = '#' →
    WalksTo s.announced s.session.session.currentChannelId digit (s.session.session.navigate digit) := by
  intro hclaim
  have hwalk := hclaim gapSession (System.Reaches.init gapSession_init) '#' (.inr rfl)
  exact absurd hwalk.mem (by decide)

end MumbleSip
