import MumbleSip.Mumble.UserNames

/-!
# The login

When `MumbleClient::connect` succeeds, with what, and with which error it fails otherwise. The loop stops at the
first packet that decides the login, and what it has collected until then is the last that the server has said
of each channel and user. The last `ChannelState` of a channel names it even if it leaves the name out.
-/

namespace MumbleSip

open History

namespace HandshakePacket

/-- The error that ends the login. -/
def refusal : HandshakePacket → Option String
  | .cryptSetup key clientNonce serverNonce =>
    if !key then some "Invalid key size"
    else if !clientNonce then some "Invalid client_nonce size"
    else if !serverNonce then some "Invalid server_nonce size"
    else none
  | .reject msg => some ("Login rejected: " ++ msg)
  | .failed error => some error
  | _ => none

/-- The login goes on after the packet. -/
def goesOn : HandshakePacket → Bool
  | .serverSync _ => false
  | packet => packet.refusal.isNone

/-- The channel that the packet is about; without an id it is channel 0. -/
def channel : HandshakePacket → Option ChannelId
  | .channelState channelId _ => some (channelId.getD 0)
  | _ => none

/-- The channel, if it has the name that the configuration asks for. -/
def target (name : String) : HandshakePacket → Option ChannelId
  | .channelState channelId channelName =>
    if name ≠ "" ∧ channelName.getD "" = name then some (channelId.getD 0) else none
  | _ => none

/-- The name in a `ChannelState` about the channel, which may leave it out. -/
def channelName (c : ChannelId) : HandshakePacket → Option (Option String)
  | .channelState channelId name => if channelId.getD 0 = c then some name else none
  | _ => none

/-- The name that the packet gives to the user, of which a blank one is none. -/
def userName (user : SessionId) : HandshakePacket → Option (Option String)
  | .userState msg => ((UserPacket.userState msg).named user).map knownName
  | _ => none

end HandshakePacket

namespace Handshake

variable {name : String} {h : Handshake} {packet : HandshakePacket} {before rest : List HandshakePacket}

/-- What a packet after which the login goes on adds. -/
def collect (name : String) (h : Handshake) (packet : HandshakePacket) : Handshake :=
  match h.packet name packet with
  | .ok h' => h'
  | .error _ => h

/-! ### One packet -/

theorem packet_of_refusal {error : String} (hrefusal : packet.refusal = some error) :
    h.packet name packet = .error error := by
  cases packet with
  | cryptSetup key clientNonce serverNonce =>
    simp only [HandshakePacket.refusal] at hrefusal
    simp only [Handshake.packet]
    split_ifs at hrefusal ⊢ <;> cases hrefusal <;> rfl
  | reject msg =>
    cases hrefusal
    rfl
  | failed text =>
    cases hrefusal
    rfl
  | _ => cases hrefusal

theorem packet_of_goesOn (hgoes : packet.goesOn = true) : h.packet name packet = .ok (h.collect name packet) := by
  cases packet with
  | cryptSetup key clientNonce serverNonce =>
    cases key <;> cases clientNonce <;> cases serverNonce <;> first | rfl | cases hgoes
  | serverSync session => cases hgoes
  | reject msg => cases hgoes
  | failed error => cases hgoes
  | _ => rfl

theorem not_serverSync (hgoes : packet.goesOn = true) : ¬∃ session, packet = .serverSync session := by
  rintro ⟨session, rfl⟩
  cases hgoes

theorem sessionId_collect (hgoes : packet.goesOn = true) : (h.collect name packet).sessionId = h.sessionId :=
  packet_sessionId (packet_of_goesOn hgoes) (not_serverSync hgoes)

theorem collect_cryptSetup (name : String) (h : Handshake) (key clientNonce serverNonce : Bool) :
    h.collect name (.cryptSetup key clientNonce serverNonce) = h := by
  rw [collect]
  cases hpacket : h.packet name (.cryptSetup key clientNonce serverNonce) with
  | ok h' => exact packet_cryptSetup hpacket
  | error e => rfl

theorem target_collect (name : String) (h : Handshake) (packet : HandshakePacket) :
    (h.collect name packet).targetChannelId = ((packet.target name).map some).getD h.targetChannelId := by
  cases packet with
  | cryptSetup key clientNonce serverNonce =>
    rw [collect_cryptSetup]
    rfl
  | channelState channelId channelName =>
    simp only [collect, Handshake.packet, HandshakePacket.target]
    split_ifs <;> rfl
  | _ => rfl

theorem maxChannelId_collect (h : Handshake) (packet : HandshakePacket) : (h.collect name packet).maxChannelId
    = packet.channel.toList.foldl max h.maxChannelId := by
  cases packet with
  | cryptSetup key clientNonce serverNonce =>
    rw [collect_cryptSetup]
    rfl
  | _ => rfl

theorem channelNames_collect (name : String) (c : ChannelId) (h : Handshake) (packet : HandshakePacket) :
    (h.collect name packet).channelNames.lookup c
      = ((packet.channelName c).map fun name => some (name.getD "")).getD (h.channelNames.lookup c) := by
  cases packet with
  | cryptSetup key clientNonce serverNonce =>
    rw [collect_cryptSetup]
    rfl
  | channelState channelId channelName =>
    simp only [collect, Handshake.packet, HandshakePacket.channelName, FiniteMap.lookup_insert]
    by_cases hc : channelId.getD 0 = c
    · rw [if_pos hc.symm, if_pos hc]
      rfl
    · rw [if_neg (Ne.symm hc), if_neg hc]
      rfl
  | _ => rfl

theorem userNames_collect (name : String) (user : SessionId) (h : Handshake) (packet : HandshakePacket) :
    (h.collect name packet).userNames.lookup user = (packet.userName user).getD (h.userNames.lookup user) := by
  cases packet with
  | cryptSetup key clientNonce serverNonce =>
    rw [collect_cryptSetup]
    rfl
  | userState msg => exact lookup_updateUserNameMap msg h.userNames user
  | _ => rfl

/-! ### The packets before the decision -/

theorem sessionId_foldl (hbefore : ∀ p ∈ before, p.goesOn = true) :
    (before.foldl (collect name) h).sessionId = h.sessionId := by
  induction before generalizing h with
  | nil => rfl
  | cons packet before ih =>
    rw [List.foldl_cons, ih fun p hp => hbefore p (List.mem_cons_of_mem _ hp)]
    exact sessionId_collect (hbefore packet List.mem_cons_self)

theorem maxChannelId_foldl (h : Handshake) (before : List HandshakePacket) :
    (before.foldl (collect name) h).maxChannelId
      = (before.filterMap HandshakePacket.channel).foldl max h.maxChannelId := by
  induction before generalizing h with
  | nil => rfl
  | cons packet before ih =>
    rw [List.foldl_cons, ih, maxChannelId_collect]
    cases hchannel : packet.channel with
    | none => rw [List.filterMap_cons_none hchannel]; rfl
    | some c => rw [List.filterMap_cons_some hchannel]; rfl

/-- The loop reads on while nothing decides the login. -/
theorem loop_append (hbefore : ∀ p ∈ before, p.goesOn = true) (hopen : h.sessionId = none) :
    loop name (before ++ rest) h = loop name rest (before.foldl (collect name) h) := by
  induction before generalizing h with
  | nil => rfl
  | cons packet before ih =>
    have hgoes := hbefore packet List.mem_cons_self
    have hnext : (h.collect name packet).sessionId = none := (sessionId_collect hgoes).trans hopen
    rw [List.cons_append, List.foldl_cons, ← ih (fun p hp => hbefore p (List.mem_cons_of_mem _ hp)) hnext, loop,
      packet_of_goesOn hgoes]
    show (if (h.collect name packet).sessionId.isSome = true then _ else _) = _
    rw [hnext]
    rfl

/-- A packet decides the login, or none does. -/
theorem exists_decision (packets : List HandshakePacket) : (∀ p ∈ packets, p.goesOn = true) ∨
    ∃ before packet rest, packets = before ++ packet :: rest ∧ (∀ p ∈ before, p.goesOn = true) ∧
      ((∃ session, packet = .serverSync session) ∨ ∃ error, packet.refusal = some error) := by
  induction packets with
  | nil => exact .inl (List.forall_mem_nil _)
  | cons packet packets ih =>
    by_cases hgoes : packet.goesOn = true
    · rcases ih with hall | ⟨before, decision, rest, rfl, hbefore, hdecision⟩
      · exact .inl (List.forall_mem_cons.2 ⟨hgoes, hall⟩)
      · exact .inr ⟨packet :: before, decision, rest, rfl, List.forall_mem_cons.2 ⟨hgoes, hbefore⟩, hdecision⟩
    · refine .inr ⟨[], packet, packets, rfl, List.forall_mem_nil _, ?_⟩
      cases packet with
      | serverSync session => exact .inl ⟨session, rfl⟩
      | cryptSetup key clientNonce serverNonce =>
        exact .inr (Option.ne_none_iff_exists'.1 fun hnone => hgoes (Option.isNone_iff_eq_none.2 hnone))
      | reject msg => exact .inr ⟨_, rfl⟩
      | failed error => exact .inr ⟨_, rfl⟩
      | _ => exact absurd rfl hgoes

end Handshake

/-- What the login hands on if `before` came before `ServerSync`. A channel whose last `ChannelState` had no name
is called by the empty one. -/
structure LogsIn (name : String) (before : List HandshakePacket) (session : Option SessionId)
    (client : MumbleClient) (userNames : UserNames) : Prop where
  sessionId : client.sessionId = session.getD 0
  targetChannelId : client.targetChannelId = lastWord (HandshakePacket.target name) before
  maxChannelId : client.maxChannelId = (before.filterMap HandshakePacket.channel).foldl max 0
  channelNames (c : ChannelId) : client.channelNames.lookup c
    = (lastWord (HandshakePacket.channelName c) before).map fun name => name.getD ""
  userNames (user : SessionId) : userNames.lookup user = (lastWord (HandshakePacket.userName user) before).join

/-- Why the login fails: the server or the stream refuses it, the stream ends too early, or the request to join
the channel cannot be sent. -/
inductive LoginFails (name : String) (joined : Except String Unit) : List HandshakePacket → String → Prop
  | refused {before : List HandshakePacket} {packet : HandshakePacket} {rest : List HandshakePacket} {error : String}
      (hbefore : ∀ p ∈ before, p.goesOn = true) (hrefusal : packet.refusal = some error) :
      LoginFails name joined (before ++ packet :: rest) error
  | closed {packets : List HandshakePacket} (hpackets : ∀ p ∈ packets, p.goesOn = true) :
      LoginFails name joined packets "Connection closed before ServerSync"
  | notJoined {before : List HandshakePacket} {session : Option SessionId} {rest : List HandshakePacket}
      {error : String} (hbefore : ∀ p ∈ before, p.goesOn = true)
      (htarget : lastWord (HandshakePacket.target name) before ≠ none) (hjoined : joined = .error error) :
      LoginFails name joined (before ++ .serverSync session :: rest) error

section

variable {name : String} {joined : Except String Unit} {before rest packets : List HandshakePacket}
  {packet : HandshakePacket} {session : Option SessionId} {error : String}

/-- What is collected before `ServerSync`. -/
def collected (name : String) (before : List HandshakePacket) : Handshake :=
  before.foldl (Handshake.collect name) .start

theorem targetChannelId_collected (name : String) (before : List HandshakePacket) :
    (collected name before).targetChannelId = lastWord (HandshakePacket.target name) before := by
  have hfold := foldl_lastWord Handshake.targetChannelId (Handshake.target_collect name) .start before
  rw [lastWord_map] at hfold
  rw [collected, hfold]
  cases lastWord (HandshakePacket.target name) before <;> rfl

theorem channelNames_collected (name : String) (before : List HandshakePacket) (c : ChannelId) :
    (collected name before).channelNames.lookup c
      = (lastWord (HandshakePacket.channelName c) before).map fun name => name.getD "" := by
  have hfold := foldl_lastWord (fun h : Handshake => h.channelNames.lookup c)
    (Handshake.channelNames_collect name c) .start before
  rw [lastWord_map] at hfold
  refine hfold.trans ?_
  cases lastWord (HandshakePacket.channelName c) before <;> rfl

theorem userNames_collected (name : String) (before : List HandshakePacket) (user : SessionId) :
    (collected name before).userNames.lookup user = (lastWord (HandshakePacket.userName user) before).join := by
  have hfold := foldl_lastWord (fun h : Handshake => h.userNames.lookup user)
    (Handshake.userNames_collect name user) .start before
  refine hfold.trans ?_
  cases lastWord (HandshakePacket.userName user) before <;> rfl

/-! ### The decisions -/

theorem loop_of_refusal (hbefore : ∀ p ∈ before, p.goesOn = true) (hrefusal : packet.refusal = some error) :
    Handshake.loop name (before ++ packet :: rest) .start = .error error := by
  rw [Handshake.loop_append hbefore rfl, Handshake.loop, Handshake.packet_of_refusal hrefusal]
  rfl

theorem loop_of_goesOn (hpackets : ∀ p ∈ packets, p.goesOn = true) :
    Handshake.loop name packets .start = .ok (collected name packets) := by
  have happend : Handshake.loop name (packets ++ []) .start = .ok (collected name packets) :=
    Handshake.loop_append hpackets rfl
  rw [List.append_nil] at happend
  exact happend

theorem loop_of_serverSync (hbefore : ∀ p ∈ before, p.goesOn = true) :
    Handshake.loop name (before ++ .serverSync session :: rest) .start
      = .ok { collected name before with sessionId := some (session.getD 0) } := by
  rw [Handshake.loop_append hbefore rfl]
  rfl

theorem connect_of_refusal (hbefore : ∀ p ∈ before, p.goesOn = true) (hrefusal : packet.refusal = some error) :
    MumbleClient.connect name (before ++ packet :: rest) joined = .error error := by
  rw [MumbleClient.connect, loop_of_refusal hbefore hrefusal]
  rfl

theorem connect_of_goesOn (hpackets : ∀ p ∈ packets, p.goesOn = true) :
    MumbleClient.connect name packets joined = .error "Connection closed before ServerSync" := by
  have hopen : (collected name packets).sessionId = none := Handshake.sessionId_foldl hpackets
  rw [MumbleClient.connect, loop_of_goesOn hpackets]
  generalize collected name packets = h at hopen
  obtain ⟨sessionId, targetChannelId, maxChannelId, channelNames, userNames⟩ := h
  cases hopen
  rfl

/-- With a channel to join, joining it decides; without one nothing is left to fail. -/
theorem connect_of_serverSync (name : String) (joined : Except String Unit) (session : Option SessionId)
    (rest : List HandshakePacket) (hbefore : ∀ p ∈ before, p.goesOn = true) :
    MumbleClient.connect name (before ++ .serverSync session :: rest) joined
      = (if (lastWord (HandshakePacket.target name) before).isSome then joined else .ok ()).map fun _ =>
        (⟨session.getD 0, (collected name before).targetChannelId, (collected name before).maxChannelId,
          (collected name before).channelNames⟩, (collected name before).userNames) := by
  rw [MumbleClient.connect, loop_of_serverSync hbefore, ← targetChannelId_collected]
  obtain ⟨sessionId, targetChannelId, maxChannelId, channelNames, userNames⟩ := collected name before
  cases targetChannelId with
  | none => rfl
  | some target => cases joined <;> rfl

theorem logsIn_collected (name : String) (before : List HandshakePacket) (session : Option SessionId) :
    LogsIn name before session
      ⟨session.getD 0, (collected name before).targetChannelId, (collected name before).maxChannelId,
        (collected name before).channelNames⟩ (collected name before).userNames where
  sessionId := rfl
  targetChannelId := targetChannelId_collected name before
  maxChannelId := Handshake.maxChannelId_foldl .start before
  channelNames := channelNames_collected name before
  userNames := userNames_collected name before

theorem connect_of_loginFails (hfails : LoginFails name joined packets error) :
    MumbleClient.connect name packets joined = .error error := by
  cases hfails with
  | refused hbefore hrefusal => exact connect_of_refusal hbefore hrefusal
  | closed hpackets => exact connect_of_goesOn hpackets
  | notJoined hbefore htarget hjoined =>
    rw [connect_of_serverSync name joined _ _ hbefore, if_pos (Option.isSome_iff_ne_none.2 htarget), hjoined]
    rfl

/-- The login either fails for one of the reasons or hands on what it has collected. -/
theorem connect_cases (name : String) (packets : List HandshakePacket) (joined : Except String Unit) :
    (∃ error, LoginFails name joined packets error) ∨
    ∃ before session rest client userNames, packets = before ++ .serverSync session :: rest ∧
      (∀ p ∈ before, p.goesOn = true) ∧ LogsIn name before session client userNames ∧
      MumbleClient.connect name packets joined = .ok (client, userNames) := by
  rcases Handshake.exists_decision packets with hall | ⟨before, packet, rest, rfl, hbefore, hdecision⟩
  · exact .inl ⟨_, .closed hall⟩
  rcases hdecision with ⟨session, rfl⟩ | ⟨error, hrefusal⟩
  · have hconnect := connect_of_serverSync name joined session rest hbefore
    cases htarget : lastWord (HandshakePacket.target name) before with
    | none =>
      rw [htarget] at hconnect
      exact .inr ⟨before, session, rest, _, _, rfl, hbefore, logsIn_collected name before session, hconnect⟩
    | some target =>
      have hfound : lastWord (HandshakePacket.target name) before ≠ none := by simp [htarget]
      rw [htarget] at hconnect
      cases hjoined : joined with
      | error error => exact .inl ⟨error, .notJoined hbefore hfound rfl⟩
      | ok done =>
        rw [hjoined] at hconnect
        exact .inr ⟨before, session, rest, _, _, rfl, hbefore, logsIn_collected name before session, hconnect⟩
  · exact .inl ⟨error, .refused hbefore hrefusal⟩

end

/-- The first packet that decides the login decides it: the error is the reason of the refusal, of the early end or
of the join, and a client that comes back has the server's last word on every channel and user. A `ChannelState`
that leaves the name out makes it empty, whatever it was before; a `UserState` without a name says nothing of it. -/
theorem login_decided (name : String) (packets : List HandshakePacket) (joined : Except String Unit) :
    (∀ error, MumbleClient.connect name packets joined = .error error ↔ LoginFails name joined packets error) ∧
    ∀ client userNames, MumbleClient.connect name packets joined = .ok (client, userNames) →
      ∃ before session rest, packets = before ++ .serverSync session :: rest ∧
        (∀ p ∈ before, p.goesOn = true) ∧ LogsIn name before session client userNames := by
  rcases connect_cases name packets joined with
    ⟨reason, hfails⟩ | ⟨before, session, rest, client, userNames, hpackets, hbefore, hlogs, hconnect⟩
  · have hconnect := connect_of_loginFails hfails
    refine ⟨fun error => ⟨fun herror => ?_, connect_of_loginFails⟩, fun client userNames hok => ?_⟩
    · cases hconnect.symm.trans herror
      exact hfails
    · cases hconnect.symm.trans hok
  · refine ⟨fun error => ⟨fun herror => ?_, connect_of_loginFails⟩, fun client' userNames' hok => ?_⟩
    · cases hconnect.symm.trans herror
    · cases hconnect.symm.trans hok
      exact ⟨before, session, rest, hpackets, hbefore, hlogs⟩

end MumbleSip
