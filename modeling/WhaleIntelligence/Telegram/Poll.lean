import WhaleIntelligence.Lib.Runs
import WhaleIntelligence.Telegram.Ingest

/- `poll_channel`: one page of a channel is ingested and the cursor set behind it.

   A `Poll` holds what a poll meets: how the channel resolves, what `iter.next` returns
   in turn (and then `Ok(None)`), and which calls of the store fail. The cursor is
   written, never read: it becomes the newest id of the page, whatever it was, and
   `0` after a page without messages. -/
namespace WhaleIntelligence.Telegram
open WhaleIntelligence KeyedTable

/-- A message of the channel, as the client returns it. -/
structure Post where
  id : Int32
  editDate : Option DateTime
  date : DateTime
  senderId : Option String
  postAuthor : Option String
  text : String
  hasMedia : Bool

/-- What `iter.next` returns: a post, with the time and the failing calls of its ingestion, or an error. -/
inductive Next
  | message (post : Post) (observedAt : DateTime) (faults : Faults)
  | failed (text : String)

/-- What `resolve_username` returns. -/
inductive Resolved
  | found
  | missing
  | failed (text : String)
  deriving DecidableEq, Repr

structure Poll where
  resolved : Resolved
  /-- A `usize`. -/
  limit : Nat
  nexts : List Next
  /-- The store fails in `handle_channel_error`. -/
  errorFails : Bool
  /-- The store fails in the last `update_channel`. -/
  cursorFails : Bool
  now : DateTime

def rawMessage (channelKey : String) (post : Post) (observedAt : DateTime) : RawChannelMessage where
  channelKey
  messageId := post.id.toInt64
  editVersion := if post.editDate.isSome then 1 else 0
  postedAt := some post.date
  observedAt
  authorRef := post.senderId
  authorName := post.postAuthor
  text := if post.text.isEmpty then none else some post.text
  deleted := false
  hasMedia := post.hasMedia
  raw := .object [("id", .number (.int post.id.toInt)), ("channel", .string channelKey)]

section
variable (x : Crates) (t : TextCrates) (channelKey : String)

/-- The loop over the page, from `fetched` messages and the newest id `maxId` on. The result of an ingestion is
    dropped, a panic in it is not. -/
def pollLoop (limit : Nat) (errorFails : Bool) :
    Nat → Int32 → List Next → PgMessageStore → Except (Abort Unit) (Nat × Int32) × PgMessageStore
  | fetched, maxId, [], s => (.ok (fetched, maxId), s)
  | fetched, maxId, .failed text :: _, s =>
    if fetched < limit then
      let handled := handleChannelError errorFails channelKey (classifyError t.toLowerCase text) s
      (handled.1.map fun _ => (fetched, maxId), handled.2)
    else (.ok (fetched, maxId), s)
  | fetched, maxId, .message post observedAt faults :: rest, s =>
    if fetched < limit then
      let ingested := ingestMessage x t faults (rawMessage channelKey post observedAt) s
      if panicked ingested.1 then (.error .panic, ingested.2)
      else pollLoop limit errorFails (fetched + 1) (if maxId < post.id then post.id else maxId) rest ingested.2
    else (.ok (fetched, maxId), s)

def pollChannel (poll : Poll) (s : PgMessageStore) : Except (Abort Unit) Nat × PgMessageStore :=
  match poll.resolved with
  | .missing =>
    let handled := handleChannelError poll.errorFails channelKey .channelNotFound s
    (handled.1.map fun _ => 0, handled.2)
  | .failed text =>
    let handled := handleChannelError poll.errorFails channelKey (classifyError t.toLowerCase text) s
    (handled.1.map fun _ => 0, handled.2)
  | .found =>
    -- `limit as u32`
    let looped := pollLoop x t channelKey (poll.limit % 4294967296) poll.errorFails 0 0 poll.nexts s
    match looped.1 with
    | .error e => (.error e, looped.2)
    | .ok (fetched, maxId) =>
      if poll.cursorFails then (.error (.error ()), looped.2)
      else
        (.ok fetched,
          looped.2.updateChannel channelKey ChannelStatus.active.asStr (some (toString maxId.toInt)) (some poll.now))

end

/-! ## What a poll reads and writes -/

def cursorOf (channelKey : String) (s : PgMessageStore) : Option String :=
  (s.channels channelKey).bind ChannelRow.lastCursor

/-- The store has some version of the message. -/
def Stored (channelKey : String) (s : PgMessageStore) (id : Int32) : Prop :=
  ∃ version, (s.messages (channelKey, id.toInt64, version)).isSome

/-- The part of the page that the limit admits. -/
def Poll.page (poll : Poll) : List Next := poll.nexts.take (poll.limit % 4294967296)

def Next.newer (maxId : Int32) : Next → Int32
  | .message post _ _ => if maxId < post.id then post.id else maxId
  | .failed _ => maxId

/-- The newest id of a page. -/
def newestId (page : List Next) : Int32 := page.foldl Next.newer 0

/-- The message is in the page and the store does not fail before it is inserted. -/
def Fetches (page : List Next) (id : Int32) : Prop :=
  ∃ post observedAt faults, Next.message post observedAt faults ∈ page ∧ post.id = id ∧
    faults.channelAllowlisted = false ∧ faults.insertMessage = false

section
variable {channelKey : String} {s : PgMessageStore}

theorem cursorOf_updateChannel (status : String) (cursor : Option String) (observedAt : Option DateTime) :
    cursorOf channelKey (s.updateChannel channelKey status cursor observedAt) = cursor.or (cursorOf channelKey s) := by
  simp only [cursorOf, PgMessageStore.updateChannel, Table.upsert, set_self]
  cases s.channels channelKey with
  | none => cases cursor <;> rfl
  | some c => rfl

theorem cursorOf_handleChannelError (fails : Bool) (error : TelegramError) :
    cursorOf channelKey (handleChannelError fails channelKey error s).2 = cursorOf channelKey s := by
  obtain ⟨-, hsame | ⟨status, hstatus⟩⟩ := handleChannelError_store (s := s)
  · rw [hsame]
  · rw [hstatus, cursorOf_updateChannel, Option.none_or]

end

end WhaleIntelligence.Telegram
