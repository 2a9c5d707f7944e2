import MumbleSip.Lib.LastWord
import MumbleSip.Mumble.Handshake

/-!
# The names of the users

The user names that the handshake collects and the receive loop carries on with. Both take over the names of
`UserState` packets. Only the receive loop looks at `UserRemove`.
-/

namespace MumbleSip

open History

/-- The packets about users. -/
inductive UserPacket
  | userState (msg : UserState)
  | userRemove (session : SessionId)
  deriving DecidableEq

namespace UserPacket

/-- As the handshake reads it: a removal is one of the packets it passes over. -/
def handshake : UserPacket → HandshakePacket
  | .userState msg => .userState msg
  | .userRemove _ => .other

/-- As the receive loop reads it. -/
def packet : UserPacket → Packet
  | .userState msg => .userState msg
  | .userRemove session => .userRemove session

/-- What the packet says of the user's name: a name, or that there is none any more. -/
def word (user : SessionId) : UserPacket → Option (Option String)
  | .userState msg => if msg.session = some user then msg.name.map some else none
  | .userRemove session => if session = user then some none else none

/-- The name the packet carries for the user. -/
def named (user : SessionId) (p : UserPacket) : Option String := (p.word user).join

end UserPacket

/-- The user names after the packets, with `ServerSync` between `before` and `after`. -/
def userNamesAfter (channel : String) (sync : Option SessionId) (joined : Except String Unit)
    (before after : List UserPacket) : Except String UserNames := do
  let (_, userNames) ← MumbleClient.connect channel (before.map UserPacket.handshake ++ [.serverSync sync]) joined
  pure (after.foldl (fun userNames p => (handlePacket p.packet userNames).2) userNames)

/-- A name is known by what is left of it once trimmed, and not at all if that is nothing. -/
def knownName (name : String) : Option String :=
  if name.toList.all isWhitespace then none else some (trim name)

/-- The name of the user after the packets: the last one that came after the user's last removal. -/
def nameAfter (packets : List UserPacket) (user : SessionId) : Option String :=
  (lastWord (UserPacket.word user) packets).join.bind knownName

/-- Wherever `ServerSync` falls, the names are those of the receive loop alone, and the sender of a message is
resolved to the last name since the last removal. -/
def NamesAgree (channel : String) (sync : Option SessionId) (joined : Except String Unit)
    (before after : List UserPacket) : Prop :=
  ∃ userNames whole, userNamesAfter channel sync joined before after = .ok userNames ∧
    userNamesAfter channel sync joined [] (before ++ after) = .ok whole ∧
    (∀ user, userNames.lookup user = whole.lookup user) ∧
    ∀ actor message, resolveTextMessageSenderName ⟨some actor, message⟩ userNames
      = nameAfter (before ++ after) actor

/-- Each user whom the server removed last in the handshake is heard of again, or had no name in it. -/
def RemovalsHarmless (before after : List UserPacket) : Prop :=
  ∀ user, lastWord (UserPacket.word user) before = some none → lastWord (UserPacket.word user) after = none →
    (lastWord (UserPacket.named user) before).bind knownName = none

/-! ### One packet -/

theorem lookup_updateUserNameMap (msg : UserState) (userNames : UserNames) (user : SessionId) :
    (updateUserNameMap msg userNames).lookup user
      = (((UserPacket.userState msg).named user).map knownName).getD (userNames.lookup user) := by
  obtain ⟨session, name, channelId⟩ := msg
  cases session with
  | none => cases name <;> rfl
  | some session =>
    cases name with
    | none =>
      simp only [updateUserNameMap, UserPacket.named, UserPacket.word, Option.map_none, ite_self]
      rfl
    | some name =>
      by_cases huser : session = user
      · subst user
        simp only [updateUserNameMap, trim_isEmpty, UserPacket.named, UserPacket.word, if_pos, Option.map_some,
          Option.join_some, knownName]
        split_ifs with hblank
        · rw [FiniteMap.lookup_erase, if_pos rfl]
          rfl
        · rw [FiniteMap.lookup_insert, if_pos rfl]
          rfl
      · have hne : some session ≠ some user := fun heq => huser (Option.some.inj heq)
        simp only [updateUserNameMap, UserPacket.named, UserPacket.word, if_neg hne]
        split_ifs with hblank
        · rw [FiniteMap.lookup_erase, if_neg (Ne.symm huser)]
          rfl
        · rw [FiniteMap.lookup_insert, if_neg (Ne.symm huser)]
          rfl

theorem lookup_handlePacket (p : UserPacket) (userNames : UserNames) (user : SessionId) :
    (handlePacket p.packet userNames).2.lookup user
      = ((p.word user).map (Option.bind · knownName)).getD (userNames.lookup user) := by
  cases p with
  | userState msg =>
    rw [UserPacket.packet, handlePacket, lookup_updateUserNameMap, UserPacket.named, UserPacket.word]
    split_ifs
    · cases msg.name <;> rfl
    · rfl
  | userRemove session =>
    rw [UserPacket.packet, handlePacket, FiniteMap.lookup_erase, UserPacket.word]
    by_cases huser : session = user
    · rw [if_pos huser.symm, if_pos huser]
      rfl
    · rw [if_neg (Ne.symm huser), if_neg huser]
      rfl

/-! ### The packets before and after `ServerSync` -/

/-- What the handshake does with the user names. -/
def collectName (userNames : UserNames) : UserPacket → UserNames
  | .userState msg => updateUserNameMap msg userNames
  | .userRemove _ => userNames

theorem lookup_collectName (userNames : UserNames) (p : UserPacket) (user : SessionId) :
    (collectName userNames p).lookup user = ((p.named user).map knownName).getD (userNames.lookup user) := by
  cases p with
  | userState msg => exact lookup_updateUserNameMap msg userNames user
  | userRemove session =>
    rw [collectName, UserPacket.named, UserPacket.word]
    split_ifs <;> rfl

theorem loop_userPackets (channel : String) (sync : Option SessionId) (before : List UserPacket) {h : Handshake}
    (hopen : h.sessionId = none) :
    Handshake.loop channel (before.map UserPacket.handshake ++ [.serverSync sync]) h
      = .ok { h with userNames := before.foldl collectName h.userNames, sessionId := some (sync.getD 0) } := by
  induction before generalizing h with
  | nil => rfl
  | cons p before ih =>
    have hstep : h.packet channel p.handshake = .ok { h with userNames := collectName h.userNames p } := by
      cases p <;> rfl
    rw [List.map_cons, List.cons_append, Handshake.loop, hstep]
    have hnot : ¬h.sessionId.isSome = true := by
      rw [hopen]
      decide
    show (if h.sessionId.isSome = true then _ else _) = _
    rw [if_neg hnot]
    exact ih (h := { h with userNames := collectName h.userNames p }) hopen

theorem userNamesAfter_eq (channel : String) (sync : Option SessionId) (joined : Except String Unit)
    (before after : List UserPacket) : userNamesAfter channel sync joined before after
      = .ok (after.foldl (fun userNames p => (handlePacket p.packet userNames).2) (before.foldl collectName ∅)) := by
  unfold userNamesAfter MumbleClient.connect
  rw [loop_userPackets channel sync before rfl]
  rfl

theorem lookup_userNamesAfter (before after : List UserPacket) (user : SessionId) :
    AList.lookup user
        (after.foldl (fun userNames p => (handlePacket p.packet userNames).2) (before.foldl collectName ∅))
      = ((lastWord (UserPacket.word user) after).map (Option.bind · knownName)).getD
        ((lastWord (UserPacket.named user) before).bind knownName) := by
  have hbefore := foldl_lastWord (AList.lookup user) (fun userNames p =>
    lookup_collectName userNames p user) ∅ before
  have hafter := foldl_lastWord (AList.lookup user) (fun userNames p =>
    lookup_handlePacket p userNames user) (before.foldl collectName ∅) after
  rw [lastWord_map] at hbefore hafter
  rw [hafter, hbefore]
  cases lastWord (UserPacket.named user) before <;> rfl

/-- One user's name is right unless the handshake has passed over a removal that nothing has followed. -/
theorem lookup_userNamesAfter_iff (before after : List UserPacket) (user : SessionId) :
    ((lastWord (UserPacket.word user) after).map (Option.bind · knownName)).getD
        ((lastWord (UserPacket.named user) before).bind knownName) = nameAfter (before ++ after) user ↔
      (lastWord (UserPacket.word user) before = some none → lastWord (UserPacket.word user) after = none →
        (lastWord (UserPacket.named user) before).bind knownName = none) := by
  rw [nameAfter, lastWord_append]
  cases hafter : lastWord (UserPacket.word user) after with
  | some word => exact iff_of_true rfl nofun
  | none =>
    rw [Option.none_or, Option.map_none, Option.getD_none]
    cases hbefore : lastWord (UserPacket.word user) before with
    | none =>
      have hnamed : lastWord (UserPacket.named user) before = none := lastWord_bind_of_none hbefore
      rw [hnamed]
      exact iff_of_true rfl nofun
    | some word =>
      cases word with
      | some name =>
        have hnamed : lastWord (UserPacket.named user) before = some name := lastWord_bind_of_some hbefore rfl
        rw [hnamed]
        exact iff_of_true rfl nofun
      | none => exact ⟨fun heq _ _ => heq, fun h => h rfl rfl⟩

/-- Exactly if no removal that the handshake passes over would still matter, the names do not depend on when
`ServerSync` comes. -/
theorem names_agree_iff (channel : String) (sync : Option SessionId) (joined : Except String Unit)
    (before after : List UserPacket) :
    NamesAgree channel sync joined before after ↔ RemovalsHarmless before after := by
  have hwhole : ∀ user, nameAfter (before ++ after) user = AList.lookup user ((before ++ after).foldl
      (fun userNames p => (handlePacket p.packet userNames).2) (([] : List UserPacket).foldl collectName ∅)) := by
    intro user
    rw [lookup_userNamesAfter]
    exact ((lookup_userNamesAfter_iff [] (before ++ after) user).2 nofun).symm
  unfold NamesAgree RemovalsHarmless
  rw [userNamesAfter_eq, userNamesAfter_eq]
  constructor
  · rintro ⟨userNames, whole, hnames, _, _, hresolve⟩ user
    cases hnames
    rw [← lookup_userNamesAfter_iff, ← lookup_userNamesAfter]
    exact hresolve user ""
  · intro hharmless
    have hnames := fun user => (lookup_userNamesAfter_iff before after user).2 (hharmless user)
    refine ⟨_, _, rfl, rfl, fun user => ?_, fun actor message => ?_⟩
    · rw [lookup_userNamesAfter, hnames user, hwhole user]
    · exact (lookup_userNamesAfter before after actor).trans (hnames actor)

/-- A user leaves while the bridge is still connecting. -/
theorem name_of_removed_kept : ¬∀ channel sync joined before after,
    NamesAgree channel sync joined before after := by
  intro hclaim
  obtain ⟨userNames, _, hnames, _, _, hresolve⟩ := hclaim "Root" (some 1) (.ok ())
    [.userState ⟨some 7, some "Alice", none⟩, .userRemove 7] []
  have hsender := hresolve 7 "hello"
  cases hnames
  revert hsender
  decide

end MumbleSip
