import MumbleSip.Mumble.Control

/-!
# The Mumble handshake

The loop of `MumbleClient::connect` in `mumble/control.rs`, from the `Authenticate` packet to `ServerSync`,
and what it leaves to the session and to the receive loop.
-/

namespace MumbleSip

/-- `ControlPacket<Clientbound>` as the handshake reads it. Of `CryptSetup` it checks three sizes; `failed` is
an error of the stream and `reject` is given with its `Debug` text. -/
inductive HandshakePacket
  | cryptSetup (key clientNonce serverNonce : Bool)
  | channelState (channelId : Option ChannelId) (name : Option String)
  | userState (msg : UserState)
  | serverSync (session : Option SessionId)
  | reject (msg : String)
  | other
  | failed (error : String)
  deriving DecidableEq

/-- The local variables of the loop. -/
structure Handshake where
  sessionId : Option SessionId
  targetChannelId : Option ChannelId
  maxChannelId : ChannelId
  channelNames : FiniteMap ChannelId String
  userNames : UserNames

namespace Handshake

def start : Handshake := ⟨none, none, 0, ∅, ∅⟩

/-- One packet; `channel` is `MumbleConfig::channel`. -/
def packet (channel : String) (h : Handshake) : HandshakePacket → Except String Handshake
  | .cryptSetup key clientNonce serverNonce =>
    if !key then .error "Invalid key size"
    else if !clientNonce then .error "Invalid client_nonce size"
    else if !serverNonce then .error "Invalid server_nonce size"
    else .ok h
  | .channelState channelId name =>
    let chId := channelId.getD 0
    .ok { h with
      channelNames := h.channelNames.insert chId (name.getD "")
      maxChannelId := max h.maxChannelId chId
      targetChannelId := if channel ≠ "" ∧ name.getD "" = channel then some chId else h.targetChannelId }
  | .userState msg => .ok { h with userNames := updateUserNameMap msg h.userNames }
  | .serverSync session => .ok { h with sessionId := some (session.getD 0) }
  | .reject msg => .error ("Login rejected: " ++ msg)
  | .other => .ok h
  | .failed error => .error error

/-- The loop ends with the stream or with `ServerSync`. -/
def loop (channel : String) : List HandshakePacket → Handshake → Except String Handshake
  | [], h => .ok h
  | packet :: packets, h => do
    let h ← h.packet channel packet
    if h.sessionId.isSome then pure h else loop channel packets h

/-- The packets that the loop reads: up to `ServerSync`. -/
def read : List HandshakePacket → List HandshakePacket
  | [] => []
  | .serverSync session :: _ => [.serverSync session]
  | packet :: packets => packet :: read packets

theorem packet_cryptSetup {channel : String} {h h' : Handshake} {key clientNonce serverNonce : Bool}
    (hpacket : h.packet channel (.cryptSetup key clientNonce serverNonce) = .ok h') : h' = h := by
  simp only [Handshake.packet] at hpacket
  split_ifs at hpacket
  exact (Except.ok.inj hpacket).symm

theorem packet_sessionId {channel : String} {h h' : Handshake} {packet : HandshakePacket}
    (hpacket : h.packet channel packet = .ok h') (hsync : ¬∃ session, packet = .serverSync session) :
    h'.sessionId = h.sessionId := by
  cases packet with
  | cryptSetup key clientNonce serverNonce => rw [packet_cryptSetup hpacket]
  | serverSync session => exact absurd ⟨session, rfl⟩ hsync
  | reject msg => cases hpacket
  | failed error => cases hpacket
  | _ =>
    cases hpacket
    rfl

/-- **Induction over the packets that the loop reads.** -/
theorem loop_induction {channel : String} {P : List HandshakePacket → Handshake → Prop}
    (hstep : ∀ before h packet h', P before h → h.packet channel packet = .ok h' → P (before ++ [packet]) h')
    {packets before : List HandshakePacket} {h h' : Handshake} (hP : P before h) (hopen : h.sessionId = none)
    (hloop : loop channel packets h = .ok h') : P (before ++ read packets) h' := by
  induction packets generalizing before h with
  | nil =>
    cases hloop
    rw [read, List.append_nil]
    exact hP
  | cons packet packets ih =>
    rw [loop] at hloop
    cases hpacket : h.packet channel packet with
    | error e =>
      rw [hpacket] at hloop
      cases hloop
    | ok next =>
      have hnext := hstep before h packet next hP hpacket
      rw [hpacket] at hloop
      replace hloop : (if next.sessionId.isSome = true then pure next else loop channel packets next) = .ok h' :=
        hloop
      by_cases hsync : ∃ session, packet = .serverSync session
      · obtain ⟨session, rfl⟩ := hsync
        cases hpacket
        cases hloop
        exact hnext
      · have hsession : next.sessionId = none := (packet_sessionId hpacket hsync).trans hopen
        have hread : read (packet :: packets) = packet :: read packets := by
          cases packet with
          | serverSync session => exact absurd ⟨session, rfl⟩ hsync
          | _ => rfl
        rw [if_neg (by rw [hsession]; decide)] at hloop
        rw [hread, ← List.singleton_append, ← List.append_assoc]
        exact ih hnext hsession hloop

end Handshake

/-- `MumbleClient::connect` past the `Authenticate` packet: the client, and the user names that the receive loop
starts with. `joined` is how sending the join request ends. -/
def MumbleClient.connect (channel : String) (packets : List HandshakePacket) (joined : Except String Unit) :
    Except String (MumbleClient × UserNames) := do
  let h ← Handshake.loop channel packets .start
  match h.sessionId with
  | none => throw "Connection closed before ServerSync"
  | some sessionId =>
    if h.targetChannelId.isSome then joined
    pure (⟨sessionId, h.targetChannelId, h.maxChannelId, h.channelNames⟩, h.userNames)

theorem MumbleClient.connect_induction {channel : String} {P : List HandshakePacket → Handshake → Prop}
    (hstart : P [] .start)
    (hstep : ∀ before h packet h', P before h → h.packet channel packet = .ok h' → P (before ++ [packet]) h')
    {packets : List HandshakePacket} {joined : Except String Unit} {client : MumbleClient}
    {userNames : UserNames} (hconnect : MumbleClient.connect channel packets joined = .ok (client, userNames)) :
    P (Handshake.read packets)
      ⟨some client.sessionId, client.targetChannelId, client.maxChannelId, client.channelNames, userNames⟩ := by
  unfold MumbleClient.connect at hconnect
  cases hloop : Handshake.loop channel packets .start with
  | error e =>
    rw [hloop] at hconnect
    cases hconnect
  | ok h =>
    have hP := Handshake.loop_induction hstep hstart rfl hloop
    rw [List.nil_append] at hP
    rw [hloop] at hconnect
    obtain ⟨sessionId, targetChannelId, maxChannelId, channelNames, names⟩ := h
    cases sessionId with
    | none => cases hconnect
    | some sessionId =>
      cases targetChannelId with
      | none =>
        cases hconnect
        exact hP
      | some target =>
        cases joined with
        | error e => cases hconnect
        | ok _ =>
          cases hconnect
          exact hP

end MumbleSip
