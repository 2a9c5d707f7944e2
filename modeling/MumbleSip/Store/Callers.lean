import MumbleSip.Lib.FiniteMap
import MumbleSip.Lib.Transition

/-!
# The caller store

`SqliteCallerStore::get_or_create_caller` of `db.rs` on the table `callers`: any number of calls of it at
once, a step for each SQL statement. Every statement is atomic, and may fail instead.
-/

namespace MumbleSip

open Transition

/-- A row of `callers` under its primary key, the phone number. -/
structure CallerRow where
  nickname : String
  lastSeen : Int64
  deriving DecidableEq

abbrev Callers := FiniteMap String CallerRow

structure CallerInfo where
  phoneNumber : String
  nickname : String
  lastSeen : UInt64
  isNew : Bool
  deriving DecidableEq

/-- `generate_nickname`, for a name drawn by the generator. -/
def generateNickname (name : String) : String := name.map fun c => if c = '-' then '_' else c

namespace Callers

/-- `UPDATE callers SET last_seen = ? WHERE phone_number = ?`. -/
def updateLastSeen (callers : Callers) (phone : String) (now : Int64) : Callers :=
  match callers.lookup phone with
  | some row => callers.insert phone { row with lastSeen := now }
  | none => callers

/-- `INSERT INTO callers .. ON CONFLICT(phone_number) DO UPDATE SET last_seen = excluded.last_seen`. -/
def insertCaller (callers : Callers) (phone nickname : String) (now : Int64) : Callers :=
  match callers.lookup phone with
  | some row => callers.insert phone { row with lastSeen := now }
  | none => callers.insert phone ⟨nickname, now⟩

/-- `SELECT 1 FROM callers WHERE nickname = ?`. -/
def conflict (callers : Callers) (nickname : String) : Bool :=
  callers.values.any fun row => row.nickname = nickname

/-- The nickname stored for a phone number. -/
def nickname (callers : Callers) (phone : String) : Option String :=
  (callers.lookup phone).map CallerRow.nickname

theorem nickname_updateLastSeen (callers : Callers) (phone : String) (now : Int64) (phone' : String) :
    (callers.updateLastSeen phone now).nickname phone' = callers.nickname phone' := by
  unfold updateLastSeen
  split
  · rename_i row hrow
    simp only [nickname, FiniteMap.lookup_insert]
    split
    · rename_i heq
      rw [heq, hrow]
      rfl
    · rfl
  · rfl

theorem nickname_insertCaller (callers : Callers) (phone name : String) (now : Int64) (phone' : String) :
    (callers.insertCaller phone name now).nickname phone'
      = if phone' = phone then some ((callers.nickname phone).getD name) else callers.nickname phone' := by
  unfold insertCaller nickname
  split
  · rename_i row hrow
    rw [FiniteMap.lookup_insert, hrow]
    split <;> rfl
  · rename_i hnone
    rw [FiniteMap.lookup_insert, hnone]
    split <;> rfl

end Callers

/-- The statement that a call of `get_or_create_caller` executes next. -/
inductive CallerPc
  | unstarted
  | select
  | update (found : CallerRow)
  | generate
  | insert (nickname : String)
  | returned (info : CallerInfo)
  | failed
  deriving DecidableEq

namespace CallerPc

def isUpdate : CallerPc → Bool
  | .update _ => true
  | _ => false

def isInsert : CallerPc → Bool
  | .insert _ => true
  | _ => false

/-- The lookup has found no row and the call has not returned yet. -/
def creating : CallerPc → Bool
  | .generate | .insert _ => true
  | _ => false

def running : CallerPc → Bool
  | .select | .update _ | .generate | .insert _ => true
  | _ => false

end CallerPc

structure CallerLookup where
  phoneNumber : String
  now : Int64
  pc : CallerPc
  deriving DecidableEq

/-- The table, and the calls of `get_or_create_caller` by number. -/
structure CallerStore where
  callers : Callers
  lookups : Nat → CallerLookup

inductive StoreAction
  | call (i : Nat) (phoneNumber : String) (now : Int64)
  | select (i : Nat)
  | update (i : Nat)
  | candidate (i : Nat) (name : String)
  | insert (i : Nat)
  | fail (i : Nat)
  deriving DecidableEq

namespace CallerStore

def setLookup (s : CallerStore) (i : Nat) (lookup : CallerLookup) : CallerStore :=
  { s with lookups := Function.update s.lookups i lookup }

def goto (s : CallerStore) (i : Nat) (pc : CallerPc) : CallerStore :=
  s.setLookup i { s.lookups i with pc := pc }

def select (s : CallerStore) (i : Nat) : CallerStore :=
  match s.callers.lookup (s.lookups i).phoneNumber with
  | some row => s.goto i (.update row)
  | none => s.goto i .generate

def update (s : CallerStore) (i : Nat) : CallerStore :=
  let lookup := s.lookups i
  match lookup.pc with
  | .update found =>
    { s with callers := s.callers.updateLastSeen lookup.phoneNumber lookup.now }.goto i
      (.returned ⟨lookup.phoneNumber, found.nickname, found.lastSeen.toUInt64, false⟩)
  | _ => s

/-- One round of the loop that looks for a unique nickname. -/
def candidate (s : CallerStore) (i : Nat) (name : String) : CallerStore :=
  if s.callers.conflict (generateNickname name) then s else s.goto i (.insert (generateNickname name))

def insert (s : CallerStore) (i : Nat) : CallerStore :=
  let lookup := s.lookups i
  match lookup.pc with
  | .insert nickname =>
    { s with callers := s.callers.insertCaller lookup.phoneNumber nickname lookup.now }.goto i
      (.returned ⟨lookup.phoneNumber, nickname, lookup.now.toUInt64, true⟩)
  | _ => s

def enabled (s : CallerStore) : StoreAction → Prop
  | .call i _ _ => (s.lookups i).pc = .unstarted
  | .select i => (s.lookups i).pc = .select
  | .update i => (s.lookups i).pc.isUpdate = true
  | .candidate i _ => (s.lookups i).pc = .generate
  | .insert i => (s.lookups i).pc.isInsert = true
  | .fail i => (s.lookups i).pc.running = true

instance (s : CallerStore) : ∀ a : StoreAction, Decidable (s.enabled a)
  | .call _ _ _ | .select _ | .update _ | .candidate _ _ | .insert _ | .fail _ =>
    inferInstanceAs (Decidable (_ = _))

def next (s : CallerStore) : StoreAction → CallerStore
  | .call i phoneNumber now => s.setLookup i ⟨phoneNumber, now, .select⟩
  | .select i => s.select i
  | .update i => s.update i
  | .candidate i name => s.candidate i name
  | .insert i => s.insert i
  | .fail i => s.goto i .failed

variable {s : CallerStore}

theorem nickname_insert {i : Nat} {nickname : String} (hpc : (s.lookups i).pc = .insert nickname)
    (phone : String) : (s.insert i).callers.nickname phone
      = if phone = (s.lookups i).phoneNumber then
          some ((s.callers.nickname (s.lookups i).phoneNumber).getD nickname)
        else s.callers.nickname phone := by
  have hcallers : (s.insert i).callers
      = s.callers.insertCaller (s.lookups i).phoneNumber nickname (s.lookups i).now := by
    simp only [insert, hpc]
    rfl
  rw [hcallers, Callers.nickname_insertCaller]

theorem nickname_next_of_ne {a : StoreAction} (ha : ∀ i, a ≠ .insert i) (phone : String) :
    (s.next a).callers.nickname phone = s.callers.nickname phone := by
  cases a with
  | select i =>
    simp only [next, select]
    split <;> rfl
  | update i =>
    simp only [next, update]
    split
    · exact Callers.nickname_updateLastSeen _ _ _ _
    · rfl
  | candidate i name =>
    simp only [next, candidate]
    split <;> rfl
  | insert i => exact absurd rfl (ha i)
  | _ => rfl

theorem nickname_next {a : StoreAction} (hen : s.enabled a) {phone name : String}
    (hname : s.callers.nickname phone = some name) :
    (s.next a).callers.nickname phone = some name := by
  by_cases ha : ∀ i, a ≠ .insert i
  · rw [nickname_next_of_ne ha, hname]
  · push Not at ha
    obtain ⟨i, rfl⟩ := ha
    cases hpc : (s.lookups i).pc with
    | insert nickname =>
      show (s.insert i).callers.nickname phone = _
      rw [nickname_insert hpc]
      split
      · rename_i hphone
        rw [← hphone, hname, Option.getD_some]
      · exact hname
    | _ =>
      simp only [enabled, hpc] at hen
      cases hen

end CallerStore

/-- The store, from any table and with no call of `get_or_create_caller` running. -/
def callerStore : System CallerStore StoreAction where
  init s := ∀ i, (s.lookups i).pc = .unstarted
  enabled := CallerStore.enabled
  next := CallerStore.next

instance (s : CallerStore) (a : StoreAction) : Decidable (callerStore.enabled s a) :=
  inferInstanceAs (Decidable (s.enabled a))

/-- An empty table. -/
def emptyStore : CallerStore := ⟨∅, fun _ => ⟨"", 0, .unstarted⟩⟩

end MumbleSip
