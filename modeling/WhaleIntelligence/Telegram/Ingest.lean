import WhaleIntelligence.Json
import WhaleIntelligence.Lib.KeyedTable
import WhaleIntelligence.Lib.SerialTable
import WhaleIntelligence.Models
import WhaleIntelligence.Telegram.Parse

/- `telegram_ingest`: a channel post becomes a row with its mentions.

   `PgMessageStore` commits every call on its own, and each call can fail without
   effect; which ones do is said by `Faults`. The insertion of the message comes first
   and is the test for a duplicate, so what fails after it is not tried again. -/
namespace WhaleIntelligence.Telegram
open WhaleIntelligence KeyedTable

inductive ChannelStatus
  | active | floodWait | disabled | notFound | authFailed
  deriving DecidableEq, Repr

def ChannelStatus.asStr : ChannelStatus → String
  | .active => "active"
  | .floodWait => "flood_wait"
  | .disabled => "disabled"
  | .notFound => "not_found"
  | .authFailed => "auth_failed"

structure RawChannelMessage where
  channelKey : String
  messageId : Int64
  editVersion : Int32
  postedAt : Option DateTime
  observedAt : DateTime
  authorRef : Option String
  authorName : Option String
  text : Option String
  deleted : Bool
  hasMedia : Bool
  raw : Json

/-- `content_hash`. -/
def contentHash (x : Crates) (channelKey : String) (messageId : Int64) (editVersion : Int32) (text : Option String) :
    String :=
  x.sha256Hex (utf8 channelKey ++ i64LeBytes messageId ++ i32LeBytes editVersion ++ utf8 (text.getD ""))

def RawChannelMessage.hash (x : Crates) (m : RawChannelMessage) : String :=
  contentHash x m.channelKey m.messageId m.editVersion m.text

/-! ## The store -/

/-- The primary key of `telegram_messages`. -/
abbrev MessageKey := String × Int64 × Int32

def RawChannelMessage.key (m : RawChannelMessage) : MessageKey := (m.channelKey, m.messageId, m.editVersion)

/-- A row of `telegram_channels`. -/
structure ChannelRow where
  allowlisted : Bool
  lastCursor : Option String
  lastObservedAt : Option DateTime
  status : String
  deriving DecidableEq, Repr

/-- A row of `telegram_messages`, without its key. -/
structure MessageRow where
  postedAt : Option DateTime
  observedAt : DateTime
  authorRef : Option String
  authorName : Option String
  textContent : Option String
  raw : Json
  contentHash : String
  deletedAt : Option DateTime

/-- A row of `telegram_mentions`. -/
structure MentionRow where
  channelKey : String
  messageId : Int64
  editVersion : Int32
  chain : String
  mint : Option String
  wallet : Option String
  mentionKind : String
  extractedValue : String
  context : String
  deriving DecidableEq

def MentionRow.message (r : MentionRow) : MessageKey := (r.channelKey, r.messageId, r.editVersion)

/-- The unique key of `telegram_mentions`. -/
def MentionRow.key (r : MentionRow) : MessageKey × String × String := (r.message, r.mentionKind, r.extractedValue)

structure PgMessageStore where
  channels : Table String ChannelRow
  messages : Table MessageKey MessageRow
  mentions : SerialTable.Table MentionRow.key fun _ => True

namespace PgMessageStore

/-- The channel row that `insert_message` makes sure of, and the row of the message, `true` where it is new. -/
def insertMessage (x : Crates) (m : RawChannelMessage) (s : PgMessageStore) : Bool × PgMessageStore :=
  let channels := s.channels.upsert m.channelKey ⟨true, none, none, "active"⟩ (fun _ => false) id
  match s.messages m.key with
  | some _ => (false, { s with channels })
  | none =>
    let row : MessageRow := {
      postedAt := m.postedAt
      observedAt := m.observedAt
      authorRef := m.authorRef
      authorName := m.authorName
      textContent := m.text
      raw := m.raw
      contentHash := m.hash x
      deletedAt := if m.deleted then some m.observedAt else none }
    (true, { s with channels, messages := s.messages.set m.key (some row) })

def insertMention (r : MentionRow) (s : PgMessageStore) : PgMessageStore :=
  { s with mentions := (s.mentions.insert r trivial).1 }

def updateChannel (channelKey status : String) (cursor : Option String) (lastObservedAt : Option DateTime)
    (s : PgMessageStore) : PgMessageStore :=
  { s with
    channels := s.channels.upsert channelKey ⟨true, cursor, lastObservedAt, status⟩ (fun _ => true) fun c =>
      { c with
        status
        lastCursor := cursor.or c.lastCursor
        lastObservedAt := lastObservedAt.or c.lastObservedAt } }

def channelAllowlisted (channelKey : String) (s : PgMessageStore) : Bool :=
  ((s.channels channelKey).map ChannelRow.allowlisted).getD false

end PgMessageStore

/-! ## Ingestion -/

/-- The calls of the store that fail, `insertMention` by their number. -/
structure Faults where
  channelAllowlisted : Bool
  insertMessage : Bool
  insertMention : Nat → Bool

def noFaults : Faults := ⟨false, false, fun _ => false⟩

def mentionRow (m : RawChannelMessage) (mention : ParsedMention) : MentionRow where
  channelKey := m.channelKey
  messageId := m.messageId
  editVersion := m.editVersion
  chain := ChainKind.solana.asStr
  mint := if mention.kind = .mint then some mention.extractedValue else none
  wallet := if mention.kind = .wallet then some mention.extractedValue else none
  mentionKind := mention.kind.asStr
  extractedValue := mention.extractedValue
  context := mention.context

/-- The loop over the mentions; the first failure ends it. -/
def insertMentions (m : RawChannelMessage) (fails : Nat → Bool) :
    Nat → List ParsedMention → PgMessageStore → Except (Abort Unit) Bool × PgMessageStore
  | _, [], s => (.ok true, s)
  | k, mention :: rest, s =>
    if fails k then (.error (.error ()), s)
    else insertMentions m fails (k + 1) rest (s.insertMention (mentionRow m mention))

def ingestMessage (x : Crates) (t : TextCrates) (faults : Faults) (m : RawChannelMessage) (s : PgMessageStore) :
    Except (Abort Unit) Bool × PgMessageStore :=
  if faults.channelAllowlisted then (.error (.error ()), s)
  else if !s.channelAllowlisted m.channelKey then (.ok false, s)
  else if faults.insertMessage then (.error (.error ()), s)
  else
    match s.insertMessage x m with
    | (false, s) => (.ok false, s)
    | (true, s) =>
      match parseMessageText t m.text with
      | none => (.error .panic, s)
      | some parsed => insertMentions m faults.insertMention 0 parsed.mentions s

section
variable {x : Crates} {t : TextCrates} {s : PgMessageStore} {m : RawChannelMessage} {faults : Faults}
  {ps : List ParsedMention}

theorem insertMessage_mentions : (s.insertMessage x m).2.mentions = s.mentions := by
  rw [PgMessageStore.insertMessage]
  split <;> rfl

/-- The row of an allowlisted channel is there already. -/
theorem insertMessage_channels (h : s.channelAllowlisted m.channelKey = true) :
    (s.insertMessage x m).2.channels = s.channels := by
  have hsame : s.channels.upsert m.channelKey ⟨true, none, none, "active"⟩ (fun _ => false) id = s.channels := by
    cases hc : s.channels m.channelKey with
    | none =>
      rw [PgMessageStore.channelAllowlisted, hc] at h
      cases h
    | some c =>
      apply set_unchanged
      rw [hc]
      rfl
  rw [PgMessageStore.insertMessage, hsame]
  split <;> rfl

/-- The insertion returns `true` where the message is new, and leaves it stored. -/
theorem insertMessage_messages : ((s.insertMessage x m).1 = true ↔ s.messages m.key = none) ∧
    ((s.insertMessage x m).2.messages m.key).isSome ∧
    ∀ k, k ≠ m.key → (s.insertMessage x m).2.messages k = s.messages k := by
  rw [PgMessageStore.insertMessage]
  cases hm : s.messages m.key with
  | some row =>
    refine ⟨⟨fun h => (by cases h), fun h => (by cases h)⟩, ?_, fun k _ => rfl⟩
    show (s.messages m.key).isSome = true
    rw [hm]
    rfl
  | none =>
    refine ⟨⟨fun _ => rfl, fun _ => rfl⟩, ?_, fun k hk => set_ne _ hk _⟩
    show (s.messages.set m.key _ m.key).isSome = true
    rw [set_self]
    rfl

theorem insertMentions_store (fails : Nat → Bool) (k : Nat) :
    (insertMentions m fails k ps s).2.messages = s.messages ∧
      (insertMentions m fails k ps s).2.channels = s.channels := by
  induction ps generalizing s k with
  | nil => exact ⟨rfl, rfl⟩
  | cons p ps ih =>
    rw [insertMentions]
    split
    · exact ⟨rfl, rfl⟩
    · exact ih (k + 1)

/-- What an ingestion does: nothing, or it goes on with the store behind the insertion of the message. -/
theorem ingestMessage_cases (x : Crates) (t : TextCrates) (s : PgMessageStore) (m : RawChannelMessage)
    (faults : Faults) :
    (ingestMessage x t faults m s).2 = s ∧
        (faults.channelAllowlisted = true ∨ s.channelAllowlisted m.channelKey = false ∨ faults.insertMessage = true) ∨
      faults.channelAllowlisted = false ∧ s.channelAllowlisted m.channelKey = true ∧ faults.insertMessage = false ∧
        ingestMessage x t faults m s =
          if (s.insertMessage x m).1 then
            match parseMessageText t m.text with
            | none => (.error .panic, (s.insertMessage x m).2)
            | some parsed => insertMentions m faults.insertMention 0 parsed.mentions (s.insertMessage x m).2
          else (.ok false, (s.insertMessage x m).2) := by
  rw [ingestMessage]
  split
  · rename_i h
    exact Or.inl ⟨rfl, Or.inl h⟩
  · rename_i hread
    split
    · rename_i h
      exact Or.inl ⟨rfl, Or.inr (Or.inl (by simpa using h))⟩
    · rename_i hallow
      split
      · rename_i h
        exact Or.inl ⟨rfl, Or.inr (Or.inr h)⟩
      · rename_i hinsert
        refine Or.inr ⟨by simpa using hread, by simpa using hallow, by simpa using hinsert, ?_⟩
        split
        · rename_i s' heq
          rw [heq]
          rfl
        · rename_i s' heq
          rw [heq]
          rfl

theorem ingestMessage_channels : (ingestMessage x t faults m s).2.channels = s.channels := by
  obtain ⟨hsame, -⟩ | ⟨-, hallow, -, hgo⟩ := ingestMessage_cases x t s m faults
  · rw [hsame]
  · rw [hgo]
    split
    · split
      · exact insertMessage_channels hallow
      · rw [(insertMentions_store _ _).2]
        exact insertMessage_channels hallow
    · exact insertMessage_channels hallow

/-- An ingestion keeps every stored message, and stores no other one than its own. -/
theorem ingestMessage_messages (k : MessageKey) : (ingestMessage x t faults m s).2.messages k = s.messages k ∨
    k = m.key ∧ s.messages k = none := by
  by_cases hk : k = m.key
  · cases hs : s.messages k with
    | none => exact Or.inr ⟨hk, rfl⟩
    | some row =>
      left
      obtain ⟨hsame, -⟩ | ⟨-, -, -, hgo⟩ := ingestMessage_cases x t s m faults
      · rw [hsame, hs]
      · have hold : ¬ (s.insertMessage x m).1 = true := by
          rw [insertMessage_messages.1, ← hk, hs]
          exact fun h => (by cases h)
        rw [hgo, if_neg hold, PgMessageStore.insertMessage, ← hk, hs]
        exact hs
  · left
    obtain ⟨hsame, -⟩ | ⟨-, -, -, hgo⟩ := ingestMessage_cases x t s m faults
    · rw [hsame]
    · have hother := (insertMessage_messages (x := x) (s := s) (m := m)).2.2 k hk
      rw [hgo]
      split
      · split
        · exact hother
        · rw [(insertMentions_store _ _).1]
          exact hother
      · exact hother

/-- The message of an allowlisted channel is stored where the store does not fail before that. -/
theorem ingestMessage_stores (hallow : s.channelAllowlisted m.channelKey = true)
    (hread : faults.channelAllowlisted = false) (hinsert : faults.insertMessage = false) :
    ((ingestMessage x t faults m s).2.messages m.key).isSome := by
  obtain ⟨-, hstop⟩ | ⟨-, -, -, hgo⟩ := ingestMessage_cases x t s m faults
  · simp [hallow, hread, hinsert] at hstop
  · rw [hgo]
    split
    · split
      · exact insertMessage_messages.2.1
      · rw [(insertMentions_store _ _).1]
        exact insertMessage_messages.2.1
    · exact insertMessage_messages.2.1

/-- A text that panics does so once its message is inserted. -/
theorem ingestMessage_panics (hallow : s.channelAllowlisted m.channelKey = true)
    (hread : faults.channelAllowlisted = false) (hinsert : faults.insertMessage = false)
    (hnew : s.messages m.key = none) (hparse : parseMessageText t m.text = none) :
    (ingestMessage x t faults m s).1 = .error .panic := by
  obtain ⟨-, hstop⟩ | ⟨-, -, -, hgo⟩ := ingestMessage_cases x t s m faults
  · simp [hallow, hread, hinsert] at hstop
  · rw [hgo, if_pos (insertMessage_messages.1.mpr hnew), hparse]

end

/-! ## Errors of a channel -/

inductive TelegramError
  | floodWait (seconds : Nat)
  | authFailed
  | channelNotFound
  | channelBanned
  | network (text : String)
  deriving DecidableEq, Repr

def isAsciiDigit (c : Char) : Bool := '0' ≤ c && c ≤ '9'

def classifyError (u : LowerCase) (raw : String) : TelegramError :=
  let lower := u.toLowercase raw.toList
  let contains (word : String) := (find word.toList lower).isSome
  if contains "flood" then
    let numbers := ((splitWhere (fun c => !isAsciiDigit c) lower).filter fun part => !part.isEmpty).filterMap
      fun part => u64FromStr (String.ofList part)
    .floodWait (numbers.getLast?.getD 5)
  else if contains "auth" || contains "unauthorized" || contains "session" then .authFailed
  else if contains "not found" || contains "does not exist" then .channelNotFound
  else if contains "banned" || contains "restricted" || contains "kicked" then .channelBanned
  else .network raw

/-- The status that `handle_channel_error` writes, none after a network error. -/
def TelegramError.status : TelegramError → Option ChannelStatus
  | .floodWait _ => some .floodWait
  | .authFailed => some .authFailed
  | .channelNotFound => some .disabled
  | .channelBanned => some .disabled
  | .network _ => none

/-- `handle_channel_error`, where `fails` says that the store does. -/
def handleChannelError (fails : Bool) (channelKey : String) (error : TelegramError) (s : PgMessageStore) :
    Except (Abort Unit) Unit × PgMessageStore :=
  match error.status with
  | none => (.ok (), s)
  | some status =>
    if fails then (.error (.error ()), s) else (.ok (), s.updateChannel channelKey status.asStr none none)

/-- An error of the channel leaves all but its row. -/
theorem handleChannelError_store {fails : Bool} {channelKey : String} {error : TelegramError} {s : PgMessageStore} :
    (handleChannelError fails channelKey error s).2.messages = s.messages ∧
      ((handleChannelError fails channelKey error s).2 = s ∨
        ∃ status, (handleChannelError fails channelKey error s).2 = s.updateChannel channelKey status none none) := by
  rw [handleChannelError]
  split
  · exact ⟨rfl, Or.inl rfl⟩
  · split
    · exact ⟨rfl, Or.inl rfl⟩
    · exact ⟨rfl, Or.inr ⟨_, rfl⟩⟩

end WhaleIntelligence.Telegram
