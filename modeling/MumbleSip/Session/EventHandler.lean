import MumbleSip.Mumble.Control

/-!
# The Mumble event handler

The task of `session.rs` that reads the events of a session and keeps track of who is in which channel,
and `SessionManager::on_dtmf_digit`, which tells it of channel changes through a watch channel.
-/

namespace MumbleSip

inductive SoundEvent
  | selfJoinedChannel
  | userJoinedChannel
  | userLeftChannel
  | textMessage
  | intro
  deriving DecidableEq

/-- `tokio::sync::watch`, seen by its one receiver. -/
structure Watch where
  value : ChannelId
  changed : Bool
  deriving DecidableEq

def Watch.send (_ : Watch) (value : ChannelId) : Watch := ⟨value, true⟩

/-- What the event handler sends to the other tasks of the session. -/
inductive Output
  | opus (sessionId : SessionId) (opusData : List UInt8)
  | announcement (channelId : ChannelId) (channelName : Option String)
  | sound (event : SoundEvent)
  | textTts (senderName : Option String) (message : String)
  deriving DecidableEq

/-- How `try_send` to the decoder ended. -/
inductive TrySend
  | ok
  | full
  | closed
  deriving DecidableEq

/-- The captured and local variables of the event handler task. -/
structure EventHandler where
  ourSessionId : SessionId
  ttsEnabled : Bool
  userChannels : FiniteMap SessionId ChannelId
  channelNames : FiniteMap ChannelId String
  ourChannelId : ChannelId
  running : Bool

namespace EventHandler

/-- Check for channel updates from DTMF navigation. -/
def checkWatch (h : EventHandler) (watch : Watch) : EventHandler × Watch :=
  if watch.changed then ({ h with ourChannelId := watch.value }, { watch with changed := false })
  else (h, watch)

def userChangedChannel (h : EventHandler) (sessionId : SessionId) (channelId : ChannelId) :
    EventHandler × List Output :=
  let oldChannel := h.userChannels.lookup sessionId
  let h := { h with userChannels := h.userChannels.insert sessionId channelId }
  if sessionId = h.ourSessionId then
    ({ h with ourChannelId := channelId },
      if h.ttsEnabled ∧ oldChannel ≠ some channelId then
        [.announcement channelId (h.channelNames.lookup channelId)]
      else [])
  else if channelId = h.ourChannelId then (h, [.sound .userJoinedChannel])
  else if oldChannel = some h.ourChannelId then (h, [.sound .userLeftChannel])
  else (h, [])

def userDisconnected (h : EventHandler) (sessionId : SessionId) : EventHandler × List Output :=
  ({ h with userChannels := h.userChannels.erase sessionId },
    if h.userChannels.lookup sessionId = some h.ourChannelId then [.sound .userLeftChannel] else [])

/-- The body of the loop after the watch channel: `opus` and `text` are how the sends to the decoder and to
the text worker ended. -/
def handleEvent (h : EventHandler) (event : MumbleEvent) (opus : TrySend) (text : Bool) :
    EventHandler × List Output :=
  match event with
  | .audioReceived sessionId opusData _ =>
    match opus with
    | .ok => (h, [.opus sessionId opusData])
    | .full => (h, [])
    | .closed => ({ h with running := false }, [])
  | .userChangedChannel sessionId channelId => h.userChangedChannel sessionId channelId
  | .userDisconnected sessionId => h.userDisconnected sessionId
  | .textMessageReceived senderName message =>
    (h, if h.ttsEnabled ∧ text then [.textTts senderName message] else [.sound .textMessage])
  | .channelState channelId name =>
    ({ h with channelNames := h.channelNames.insert channelId name }, [])
  | .disconnected => ({ h with running := false }, [])
  | .connected _ => (h, [])

end EventHandler

/-- The fields of `CallSession` for channel navigation. -/
structure ChannelSession where
  channelWatch : Watch
  currentChannelId : ChannelId
  maxChannelId : ChannelId
  callerNumber : Option String
  serverHost : String

namespace ChannelSession

def saturatingSub (a b : ChannelId) : ChannelId := if a ≤ b then 0 else a - b

/-- The channel that `*` or `#` navigates to. -/
def navigate (session : ChannelSession) (digit : Char) : ChannelId :=
  if digit = '*' then saturatingSub session.currentChannelId 1
  else min (session.currentChannelId + 1) session.maxChannelId

/-- `SessionManager::on_dtmf_digit`: the session, the join request it sends, and the sounds. `sent` is what
`join_channel` answers. -/
def onDtmfDigit (session : ChannelSession) (digit : Char) (sent : Bool) :
    ChannelSession × Option ChannelId × List SoundEvent :=
  if digit = '1' then (session, none, [.intro])
  else if digit = '*' ∨ digit = '#' then
    if sent then
      ({ session with
          currentChannelId := session.navigate digit
          channelWatch := session.channelWatch.send (session.navigate digit) },
        some (session.navigate digit), [.selfJoinedChannel])
    else (session, none, [.selfJoinedChannel])
  else (session, none, [])

/-- What `on_call_disconnected` passes to `set_last_channel_id`. -/
def lastChannel (session : ChannelSession) : Option (String × String × ChannelId) :=
  session.callerNumber.map fun phone => (phone, session.serverHost, session.currentChannelId)

end ChannelSession

end MumbleSip
