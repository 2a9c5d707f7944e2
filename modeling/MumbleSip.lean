import MumbleSip.Lib.Transition
import MumbleSip.Lib.FiniteMap
import MumbleSip.Lib.Custody
import MumbleSip.Lib.Watch
import MumbleSip.Lib.Lru
import MumbleSip.Lib.Replace
import MumbleSip.Lib.Words
import MumbleSip.Lib.LastWord
import MumbleSip.Lib.Repetition
import MumbleSip.Lib.Bytes
import MumbleSip.Lib.Riff
import MumbleSip.Lib.Rounding
import MumbleSip.Sip.Media
import MumbleSip.Sip.CallerNumber
import MumbleSip.Session.Manager
import MumbleSip.Session.System
import MumbleSip.Session.Pending
import MumbleSip.Session.Handover
import MumbleSip.Session.Admission
import MumbleSip.Session.Custody
import MumbleSip.Session.Attachment
import MumbleSip.Session.Detached
import MumbleSip.Session.Isolation
import MumbleSip.Session.Exposure
import MumbleSip.Session.Release
import MumbleSip.Mumble.Control
import MumbleSip.Mumble.Handshake
import MumbleSip.Mumble.UserNames
import MumbleSip.Session.EventHandler
import MumbleSip.Session.Channel
import MumbleSip.Session.Chimes
import MumbleSip.Session.ChannelNames
import MumbleSip.Session.Announcements
import MumbleSip.Session.Walk
import MumbleSip.Session.Speech
import MumbleSip.Session.Debounce
import MumbleSip.Session.Fallback
import MumbleSip.Store.Callers
import MumbleSip.Store.Nickname
import MumbleSip.Store.Unique
import MumbleSip.Store.Channels
import MumbleSip.Store.LastChannel
import MumbleSip.Session.Intro
import MumbleSip.Audio.Cache
import MumbleSip.Audio.Recency
import MumbleSip.Audio.Tts
import MumbleSip.Audio.InFlight
import MumbleSip.Audio.Recovery
import MumbleSip.Audio.Repeat
import MumbleSip.Audio.Encoder
import MumbleSip.Audio.Spurts
import MumbleSip.Audio.Mixer
import MumbleSip.Audio.Conservation
import MumbleSip.Audio.Phrase
import MumbleSip.Audio.Verbatim
import MumbleSip.Audio.Links
import MumbleSip.Audio.Wording
import MumbleSip.Audio.Hosts
import MumbleSip.Audio.Capitals
import MumbleSip.Audio.Wav
import MumbleSip.Audio.WavFile
import MumbleSip.Audio.Resample
import MumbleSip.Audio.Anchors
import MumbleSip.Audio.Saturation
import MumbleSip.Lib.Checked
import MumbleSip.Session.Settings
import MumbleSip.Sip.MediaPort
import MumbleSip.Sip.SampleFlow
import MumbleSip.Audio.Slices
import MumbleSip.Audio.Settling
import MumbleSip.Audio.Answers
import MumbleSip.Lib.Mpsc
import MumbleSip.Session.VoicePath
import MumbleSip.Session.VoiceFlow
import MumbleSip.Session.HearingPath
import MumbleSip.Session.HearingFlow
import MumbleSip.Session.HearingEnd
import MumbleSip.Audio.Speaker
import MumbleSip.Session.Rest
import MumbleSip.Session.Shutdown
import MumbleSip.Session.SpokenSession
import MumbleSip.Session.Answered
import MumbleSip.Audio.Probing
import MumbleSip.Mumble.Login
