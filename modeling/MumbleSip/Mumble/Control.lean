import MumbleSip.Lib.FiniteMap
import MumbleSip.Lib.Words

/-!
# The Mumble control connection

`mumble/control.rs` past the handshake: the packets of the server, the events they become in
`MumbleClient::handle_packet`, and the names of the users that the receive loop keeps for them.
-/

namespace MumbleSip

/-- A Mumble session id. -/
abbrev SessionId := UInt32

/-- A Mumble channel id. -/
abbrev ChannelId := UInt32

/-! ### Packets and events -/

/-- `msgs::UserState`, of which the bridge reads three optional fields. -/
structure UserState where
  session : Option SessionId
  name : Option String
  channelId : Option ChannelId
  deriving DecidableEq

structure TextMessage where
  actor : Option SessionId
  message : String
  deriving DecidableEq

/-- `ControlPacket<Clientbound>`; `other` are the packets that the receive loop drops, voice other than
Opus among them. An unset number reads as 0 and an unset name as the empty string. -/
inductive Packet
  | udpTunnel (sessionId : SessionId) (seqNum : UInt64) (opusData : List UInt8)
  | userState (msg : UserState)
  | channelState (channelId : Option ChannelId) (name : Option String)
  | userRemove (session : SessionId)
  | textMessage (msg : TextMessage)
  | ping
  | other
  deriving DecidableEq

inductive MumbleEvent
  | connected (sessionId : SessionId)
  | disconnected
  | audioReceived (sessionId : SessionId) (opusData : List UInt8) (seqNum : UInt64)
  | userChangedChannel (sessionId : SessionId) (channelId : ChannelId)
  | channelState (channelId : ChannelId) (name : String)
  | userDisconnected (sessionId : SessionId)
  | textMessageReceived (senderName : Option String) (message : String)
  deriving DecidableEq

/-! ### `MumbleClient::handle_packet` -/

/-- `char::is_whitespace`. -/
def isWhitespace (c : Char) : Bool :=
  (0x9 ≤ c.toNat && c.toNat ≤ 0xd) || (0x2000 ≤ c.toNat && c.toNat ≤ 0x200a) ||
    c.toNat ∈ [0x20, 0x85, 0xa0, 0x1680, 0x2028, 0x2029, 0x202f, 0x205f, 0x3000]

/-- `str::trim`. -/
def trim (s : String) : String :=
  String.ofList ((s.toList.dropWhile isWhitespace).reverse.dropWhile isWhitespace).reverse

theorem trim_isEmpty (s : String) : (trim s).isEmpty = s.toList.all isWhitespace := by
  rw [Bool.eq_iff_iff, String.isEmpty_iff, List.all_eq_true, ← Text.trim_eq_nil]
  exact String.ofList_eq_empty_iff

abbrev UserNames := FiniteMap SessionId String

def updateUserNameMap (msg : UserState) (userNames : UserNames) : UserNames :=
  match msg.session, msg.name with
  | some session, some name =>
    if (trim name).isEmpty then userNames.erase session else userNames.insert session (trim name)
  | _, _ => userNames

def resolveTextMessageSenderName (msg : TextMessage) (userNames : UserNames) : Option String :=
  msg.actor.bind fun actor => userNames.lookup actor

/-- The event a packet becomes, if any, and the user names after it. -/
def handlePacket (packet : Packet) (userNames : UserNames) : Option MumbleEvent × UserNames :=
  match packet with
  | .udpTunnel sessionId seqNum opusData => (some (.audioReceived sessionId opusData seqNum), userNames)
  | .userState msg =>
    (msg.channelId.map fun channelId => .userChangedChannel (msg.session.getD 0) channelId,
      updateUserNameMap msg userNames)
  | .channelState channelId name =>
    (some (.channelState (channelId.getD 0) (name.getD "")), userNames)
  | .userRemove session => (some (.userDisconnected session), userNames.erase session)
  | .textMessage msg =>
    (some (.textMessageReceived (resolveTextMessageSenderName msg userNames) msg.message), userNames)
  | .ping | .other => (none, userNames)

/-! ### What the handshake leaves -/

/-- `MumbleClient` as `connect` returns it: the channel found under the configured name, which `connect` has
asked to join, and what the server announced. -/
structure MumbleClient where
  sessionId : SessionId
  targetChannelId : Option ChannelId
  maxChannelId : ChannelId
  channelNames : FiniteMap ChannelId String

/-- `MumbleClient::channel_id`: 0 where no channel was found. -/
def MumbleClient.channelId (client : MumbleClient) : ChannelId := client.targetChannelId.getD 0

end MumbleSip
