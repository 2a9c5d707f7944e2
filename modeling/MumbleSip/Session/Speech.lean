import MumbleSip.Lib.Transition
import MumbleSip.Session.EventHandler

/-!
# The speech of a session

The two tasks of `session.rs` that speak to the caller: one announces the channels that the event handler sends
it, once they have been quiet for a while, the other reads text messages out. Each runs beside whatever sends to
it, and waits for the synthesis, which may fail. The histories at the end of a state are read by no step.
-/

namespace MumbleSip

open Transition

/-- A channel and its name. -/
abbrev Announcement := ChannelId × Option String

/-- The captured variables of the tasks; `runtime` is whether there is a TTS runtime. -/
structure SpeechConfig where
  ttsEnabled : Bool
  announcementDebounceMs : Nat
  runtime : Bool
  deriving DecidableEq

def SpeechConfig.announceDebounce (config : SpeechConfig) : Nat :=
  if config.ttsEnabled then config.announcementDebounceMs else 0

/-- What a task sends to the caller. -/
inductive Sound
  | announcement (a : Announcement)
  | text (senderName : Option String) (message : String)
  | chime (event : SoundEvent)
  deriving DecidableEq

/-! ### The announcements -/

/-- An announcement as the task has received it. -/
structure Receipt where
  announcement : Announcement
  sentAt : Nat
  receivedAt : Nat
  deriving DecidableEq

/-- Where the task waits. -/
inductive AnnounceTask
  /-- For the first announcement. -/
  | idle
  /-- For another one, or the end of the quiet period. -/
  | debouncing (latest : Announcement) (deadline : Nat)
  | synthesizing (announcement : Announcement) (rxClosed : Bool)
  | ended
  deriving DecidableEq

def AnnounceTask.receives : AnnounceTask → Bool
  | .idle | .debouncing _ _ => true
  | .synthesizing _ _ | .ended => false

def AnnounceTask.deadline : AnnounceTask → Option Nat
  | .debouncing _ deadline => some deadline
  | _ => none

def AnnounceTask.synthesizes : AnnounceTask → Bool
  | .synthesizing _ _ => true
  | _ => false

/-- The announcement that is being synthesized. -/
def AnnounceTask.current : AnnounceTask → Option Announcement
  | .synthesizing announcement _ => some announcement
  | _ => none

/-- A burst that the task is done with: its last announcement, and what was sent for it. -/
structure Handled where
  announcement : Announcement
  sounds : List Sound
  deriving DecidableEq

structure Announcer where
  config : SpeechConfig
  now : Nat
  /-- Announcements on their way, with the time they were sent at, and whether the senders are gone. -/
  queue : List (Announcement × Nat)
  closed : Bool
  task : AnnounceTask
  lastAnnouncedChannel : Option ChannelId
  sounds : List Sound
  /-- All announcements sent; those of the burst that is not over, and of those that are. -/
  sent : List (Announcement × Nat)
  burst : List Receipt
  bursts : List (List Receipt)
  /-- The calls of `synth_channel_announcement`, and what has become of each burst. -/
  calls : List Announcement
  handled : List Handled

inductive AnnouncerAction
  | send (announcement : Announcement)
  | close
  | wait (ms : Nat)
  /-- The receive call of the task returns. -/
  | receive
  | timeout
  | synthesized (ok : Bool)
  deriving DecidableEq

namespace Announcer

def start (config : SpeechConfig) : Announcer :=
  ⟨config, 0, [], false, .idle, none, [], [], [], [], [], []⟩

/-- A burst is done with. -/
def conclude (s : Announcer) (announcement : Announcement) (sounds : List Sound) (task : AnnounceTask) : Announcer :=
  { s with
    task := task
    sounds := s.sounds ++ sounds
    handled := s.handled ++ [⟨announcement, sounds⟩] }

/-- What follows a burst. -/
def announce (s : Announcer) (latest : Announcement) (rxClosed : Bool) : Announcer :=
  let s := { s with bursts := s.bursts ++ [s.burst], burst := [] }
  if s.lastAnnouncedChannel = some latest.1 then s.conclude latest [] .idle
  else
    let s := { s with lastAnnouncedChannel := some latest.1 }
    if s.config.ttsEnabled ∧ s.config.runtime then
      { s with task := .synthesizing latest rxClosed, calls := s.calls ++ [latest] }
    else s.conclude latest [] (if rxClosed then .ended else .idle)

/-- The first announcement in the queue is received. -/
def take (s : Announcer) (item : Announcement × Nat) (queue : List (Announcement × Nat)) : Announcer :=
  { s with queue := queue, burst := s.burst ++ [⟨item.1, item.2, s.now⟩] }

def receive (s : Announcer) : Announcer :=
  match s.task, s.queue with
  | .idle, item :: queue =>
    let s := s.take item queue
    if s.config.announceDebounce = 0 then s.announce item.1 false
    else { s with task := .debouncing item.1 (s.now + s.config.announceDebounce) }
  | .idle, [] => { s with task := .ended }
  | .debouncing _ _, item :: queue =>
    { s.take item queue with task := .debouncing item.1 (s.now + s.config.announceDebounce) }
  | .debouncing latest _, [] => s.announce latest true
  | _, _ => s

def timeout (s : Announcer) : Announcer :=
  match s.task with
  | .debouncing latest _ => s.announce latest false
  | _ => s

/-- A duplicate and a success go on to the next receive call, also when the channel is closed. -/
def synthesized (s : Announcer) (ok : Bool) : Announcer :=
  match s.task with
  | .synthesizing a rxClosed =>
    if ok then s.conclude a [.announcement a] .idle
    else s.conclude a [] (if rxClosed then .ended else .idle)
  | _ => s

/-- The receive call is polled before the timer is. -/
def enabled (s : Announcer) : AnnouncerAction → Prop
  | .send _ | .close => s.closed = false
  | .wait _ => True
  | .receive => s.task.receives = true ∧ (s.queue ≠ [] ∨ s.closed = true)
  | .timeout => s.queue = [] ∧ s.closed = false ∧ ∃ deadline ∈ s.task.deadline, deadline ≤ s.now
  | .synthesized _ => s.task.synthesizes = true

instance (s : Announcer) : ∀ a : AnnouncerAction, Decidable (s.enabled a)
  | .send _ | .close => inferInstanceAs (Decidable (_ = _))
  | .wait _ => inferInstanceAs (Decidable True)
  | .receive | .timeout => inferInstanceAs (Decidable (_ ∧ _))
  | .synthesized _ => inferInstanceAs (Decidable (_ = _))

def next (s : Announcer) : AnnouncerAction → Announcer
  | .send a => { s with queue := s.queue ++ [(a, s.now)], sent := s.sent ++ [(a, s.now)] }
  | .close => { s with closed := true }
  | .wait ms => { s with now := s.now + ms }
  | .receive => s.receive
  | .timeout => s.timeout
  | .synthesized ok => s.synthesized ok

end Announcer

def announcer : System Announcer AnnouncerAction where
  init s := ∃ config, s = .start config
  enabled := Announcer.enabled
  next := Announcer.next

instance (s : Announcer) (a : AnnouncerAction) : Decidable (announcer.enabled s a) :=
  inferInstanceAs (Decidable (s.enabled a))

/-! ### The text messages -/

structure TextReader where
  config : SpeechConfig
  queue : List (Option String × String)
  /-- The message that is being synthesized. -/
  current : Option (Option String × String)
  sounds : List Sound
  received : List (Option String × String)

inductive TextAction
  /-- The event handler has a message; `sent` is whether the task takes it. -/
  | message (senderName : Option String) (message : String) (sent : Bool)
  | receive
  | synthesized (ok : Bool)
  deriving DecidableEq

namespace TextReader

def start (config : SpeechConfig) : TextReader := ⟨config, [], none, [], []⟩

/-- What the event handler does with the message. -/
def message (s : TextReader) (senderName : Option String) (message : String) (sent : Bool) : TextReader :=
  let s := { s with received := s.received ++ [(senderName, message)] }
  if s.config.ttsEnabled ∧ sent then { s with queue := s.queue ++ [(senderName, message)] }
  else { s with sounds := s.sounds ++ [.chime .textMessage] }

def receive (s : TextReader) : TextReader :=
  match s.queue with
  | item :: queue =>
    if s.config.runtime then { s with queue := queue, current := some item }
    else { s with queue := queue, sounds := s.sounds ++ [.chime .textMessage] }
  | [] => s

def synthesized (s : TextReader) (ok : Bool) : TextReader :=
  match s.current with
  | some (senderName, message) =>
    { s with
      current := none
      sounds := s.sounds ++ [if ok then .text senderName message else .chime .textMessage] }
  | none => s

def enabled (s : TextReader) : TextAction → Prop
  | .message _ _ _ => True
  | .receive => s.current = none ∧ s.queue ≠ []
  | .synthesized _ => s.current ≠ none

def next (s : TextReader) : TextAction → TextReader
  | .message senderName message sent => s.message senderName message sent
  | .receive => s.receive
  | .synthesized ok => s.synthesized ok

end TextReader

def textReader : System TextReader TextAction where
  init s := ∃ config, s = .start config
  enabled := TextReader.enabled
  next := TextReader.next

end MumbleSip
