import WhaleIntelligence.Telegram.PollRuns

/- The edits of a message over the polls of its channel.

   `poll_channel` gives the original the version 0 and every edit the version 1, and a
   message with a stored version is a duplicate. So the rows of a message are those of the
   first two contents that are observed (`Tracked.step`), and the history is complete
   exactly where no later edit has another text (`edits_kept_iff`). -/
namespace WhaleIntelligence.Telegram
open WhaleIntelligence Runs

/-- What is stored of the text of a post. -/
def contentOf (text : String) : Option String := if text.isEmpty then none else some text

/-- The page does not have the message here. -/
def Next.Other (id : Int32) : Next → Prop
  | .message post _ _ => post.id ≠ id
  | .failed _ => True

/-- The poll does not meet the message. -/
def Poll.Skips (poll : Poll) (id : Int32) : Prop := poll.resolved ≠ .found ∨ ∀ next ∈ poll.page, next.Other id

section
variable (x : Crates) (t : TextCrates) (channelKey : String) (id : Int32)

/-- The poll gets to the message in its page, as an edited one or not, and the store does not fail in its ingestion. -/
def Observes (edited : Bool) (text : String) (poll : Poll) (s : PgMessageStore) : Prop :=
  poll.resolved = .found ∧ ∃ pre post observedAt rest, poll.page = pre ++ .message post observedAt noFaults :: rest ∧
    post.id = id ∧ post.text = text ∧ post.editDate.isSome = edited ∧
    (∀ next ∈ pre, next.Other id ∧ ∀ error, next ≠ .failed error) ∧ (∀ next ∈ rest, next.Other id) ∧
    panicked (pollPage x t channelKey poll.errorFails 0 pre s).1 = false

/-- A channel whose message is edited. -/
structure EditWorld where
  store : PgMessageStore
  /-- The contents that polls have observed, the original first. -/
  observed : List String
  /-- The content that no poll has observed yet. -/
  unseen : Option String

def EditWorld.contents (w : EditWorld) : List String := w.observed ++ w.unseen.toList

inductive EditAction
  | edit (text : String)
  | poll (poll : Poll)

def EditStep (w : EditWorld) : EditAction → EditWorld → Prop
  | .edit text, w' => w.unseen = none ∧ w.observed.getLast? ≠ some text ∧ w' = { w with unseen := some text }
  | .poll poll, w' => w'.store = (pollChannel x t channelKey poll w.store).2 ∧
      ((poll.Skips id ∧ w'.observed = w.observed ∧ w'.unseen = w.unseen) ∨
        (∃ text, w.contents.getLast? = some text ∧
          Observes x t channelKey id (1 < w.contents.length) text poll w.store) ∧
          w'.observed = w.contents ∧ w'.unseen = none)

def versionKey (version : Int32) : MessageKey := (channelKey, id.toInt64, version)

/-- The message is new, on an allowlisted channel. -/
structure NewMessage (w : EditWorld) : Prop where
  allowlisted : w.store.channelAllowlisted channelKey = true
  messages : ∀ version, w.store.messages (versionKey channelKey id version) = none
  mentions : ∀ version, mentionsOf (versionKey channelKey id version) w.store = []
  unobserved : w.observed = []

/-- What a mention says. -/
def MentionRow.said (r : MentionRow) : String × String × String := (r.mentionKind, r.extractedValue, r.context)

def ParsedMention.said (p : ParsedMention) : String × String × String := (p.kind.asStr, p.extractedValue, p.context)

/-- A row has the content, and its mentions are stored. -/
def Kept (s : PgMessageStore) (text : String) : Prop :=
  ∃ version row parsed, s.messages (versionKey channelKey id version) = some row ∧ row.textContent = contentOf text ∧
    parseMessageText t (contentOf text) = some parsed ∧
    (mentionsOf (versionKey channelKey id version) s).map MentionRow.said = parsed.mentions.map ParsedMention.said

/-- The version has no row, or one of the content with the mentions of it that parse. -/
def Holds (s : PgMessageStore) (version : Int32) : Option String → Prop
  | none => s.messages (versionKey channelKey id version) = none ∧ mentionsOf (versionKey channelKey id version) s = []
  | some text =>
    (∃ row, s.messages (versionKey channelKey id version) = some row ∧ row.textContent = contentOf text) ∧
      (mentionsOf (versionKey channelKey id version) s).map MentionRow.said =
        ((parseMessageText t (contentOf text)).map fun p => p.mentions.map ParsedMention.said).getD []

/-- The content that goes with a version. -/
def versionText (observed : List String) (version : Int32) : Option String :=
  if version = 0 then observed[0]? else if version = 1 then observed[1]? else none

end

section
variable {x : Crates} {t : TextCrates} {channelKey : String} {id : Int32} {s s' : PgMessageStore}
  {m : RawChannelMessage}
  {faults : Faults} {version : Int32} {text : String} {content : Option String} {poll : Poll} {edited : Bool}

/-! ## Other messages -/

/-- The two stores have the same of the message. -/
structure SameMessage (channelKey : String) (id : Int32) (s s' : PgMessageStore) : Prop where
  allowlisted : s.channelAllowlisted channelKey = true → s'.channelAllowlisted channelKey = true
  messages : ∀ version, s'.messages (versionKey channelKey id version) = s.messages (versionKey channelKey id version)
  mentions : ∀ version,
    mentionsOf (versionKey channelKey id version) s' = mentionsOf (versionKey channelKey id version) s

theorem SameMessage.refl (s : PgMessageStore) :
    SameMessage channelKey id s s := ⟨fun h => h, fun _ => rfl, fun _ => rfl⟩

theorem SameMessage.trans {s'' : PgMessageStore} (h : SameMessage channelKey id s s')
    (h' : SameMessage channelKey id s' s'') : SameMessage channelKey id s s'' :=
  ⟨fun hs => h'.allowlisted (h.allowlisted hs), fun v => (h'.messages v).trans (h.messages v),
    fun v => (h'.mentions v).trans (h.mentions v)⟩

theorem SameMessage.holds (h : SameMessage channelKey id s s') (hs : Holds t channelKey id s version content) :
    Holds t channelKey id s' version content := by
  cases content with
  | none =>
    rw [Holds, h.messages, h.mentions]
    exact hs
  | some text =>
    rw [Holds, h.messages, h.mentions]
    exact hs

theorem mentionsOf_insertMention_ne {key : MessageKey} {r : MentionRow} (hne : r.message ≠ key) :
    mentionsOf key (s.insertMention r) = mentionsOf key s := by
  rw [mentionsOf, PgMessageStore.insertMention]
  by_cases hknown : r.key ∈ s.mentions.keys
  · rw [SerialTable.Table.insert_conflict hknown]
    rfl
  · rw [SerialTable.Table.insert_new hknown]
    simp [SerialTable.Table.push, mentionsOf, List.filter_append, hne]

theorem mentionsOf_insertMentions_ne {key : MessageKey} (hne : m.key ≠ key) (fails : Nat → Bool) (k : Nat)
    (ps : List ParsedMention) : mentionsOf key (insertMentions m fails k ps s).2 = mentionsOf key s := by
  induction ps generalizing s k with
  | nil => rfl
  | cons p ps ih =>
    rw [insertMentions]
    split
    · rfl
    · have hrow : (mentionRow m p).message ≠ key := hne
      rw [ih, mentionsOf_insertMention_ne hrow]

/-- An ingestion leaves the mentions of the other messages. -/
theorem mentionsOf_ingest_ne {key : MessageKey} (hne : m.key ≠ key) :
    mentionsOf key (ingestMessage x t faults m s).2 = mentionsOf key s := by
  have hinsert : mentionsOf key (s.insertMessage x m).2 = mentionsOf key s := by
    rw [mentionsOf, insertMessage_mentions]
    rfl
  obtain ⟨hsame, -⟩ | ⟨-, -, -, hgo⟩ := ingestMessage_cases x t s m faults
  · rw [hsame]
  · rw [hgo]
    split
    · split
      · exact hinsert
      · rw [mentionsOf_insertMentions_ne hne, hinsert]
    · exact hinsert

theorem ingest_key_ne {key : MessageKey} (hne : m.key ≠ key) :
    (ingestMessage x t faults m s).2.messages key = s.messages key := by
  obtain hsame | ⟨hkey, -⟩ := @ingestMessage_messages x t s m faults key
  · exact hsame
  · exact absurd hkey.symm hne

theorem versionKey_ne {post : Post} (hne : post.id ≠ id) (observedAt : DateTime) (version : Int32) :
    (rawMessage channelKey post observedAt).key ≠ versionKey channelKey id version := by
  intro heq
  exact hne (toInt64_injective (congrArg (fun k => k.2.1) heq))

theorem sameMessage_ingest {post : Post} (hne : post.id ≠ id) (observedAt : DateTime) :
    SameMessage channelKey id s (ingestMessage x t faults (rawMessage channelKey post observedAt) s).2 :=
  ⟨fun h => allowlisted_ingest.trans h, fun v => ingest_key_ne (versionKey_ne hne observedAt v),
    fun v => mentionsOf_ingest_ne (versionKey_ne hne observedAt v)⟩

theorem sameMessage_updateChannel (status : String) (cursor : Option String) (observedAt : Option DateTime) :
    SameMessage channelKey id s (s.updateChannel channelKey status cursor observedAt) := by
  refine ⟨fun h => ?_, fun _ => rfl, fun _ => rfl⟩
  simp only [PgMessageStore.channelAllowlisted, PgMessageStore.updateChannel, KeyedTable.Table.upsert,
    KeyedTable.set_self] at h ⊢
  cases hrow : s.channels channelKey with
  | none =>
    rw [hrow] at h
    cases h
  | some row =>
    rw [hrow] at h
    exact h

theorem sameMessage_handleChannelError {fails : Bool} (error : TelegramError) :
    SameMessage channelKey id s (handleChannelError fails channelKey error s).2 := by
  obtain ⟨-, hsame | ⟨status, hstatus⟩⟩ := handleChannelError_store (s := s)
  · rw [hsame]
    exact .refl s
  · rw [hstatus]
    exact sameMessage_updateChannel _ _ _

/-- A page without the message leaves what is stored of it. -/
theorem sameMessage_pollPage {fails : Bool} {maxId : Int32} {page : List Next} (h : ∀ next ∈ page, next.Other id) :
    SameMessage channelKey id s (pollPage x t channelKey fails maxId page s).2 := by
  induction page generalizing maxId s with
  | nil => exact .refl s
  | cons next rest ih =>
    rw [List.forall_mem_cons] at h
    cases next with
    | failed text => exact sameMessage_handleChannelError _
    | message post observedAt faults =>
      have hsame : SameMessage channelKey id s
          (ingestMessage x t faults (rawMessage channelKey post observedAt) s).2 := sameMessage_ingest h.1 observedAt
      rw [pollPage]
      split
      · exact hsame
      · exact hsame.trans (ih h.2)

/-- What a poll leaves of a message is what its page leaves. -/
theorem sameMessage_pollChannel (h : poll.resolved = .found) :
    SameMessage channelKey id (pollPage x t channelKey poll.errorFails 0 poll.page s).2
      (pollChannel x t channelKey poll s).2 := by
  obtain ⟨e, -, hpoll⟩ | ⟨newest, fetched, -, hpoll⟩ := pollChannel_found x t channelKey s h
  · rw [hpoll]
    exact .refl _
  · rw [hpoll]
    split
    · exact .refl _
    · exact sameMessage_updateChannel _ _ _

theorem sameMessage_skips (h : poll.Skips id) : SameMessage channelKey id s (pollChannel x t channelKey poll s).2 := by
  cases hresolved : poll.resolved with
  | missing =>
    rw [pollChannel, hresolved]
    exact sameMessage_handleChannelError _
  | failed text =>
    rw [pollChannel, hresolved]
    exact sameMessage_handleChannelError _
  | found =>
    obtain hno | hpage := h
    · exact absurd hresolved hno
    · exact (sameMessage_pollPage hpage).trans (sameMessage_pollChannel hresolved)

/-! ## The message itself -/

/-- A page goes on behind messages that do not panic. -/
theorem pollPage_append {fails : Bool} {maxId : Int32} {pre : List Next} (rest : List Next)
    (hpre : ∀ next ∈ pre, ∀ error, next ≠ .failed error)
    (hpanic : panicked (pollPage x t channelKey fails maxId pre s).1 = false) :
    ∃ newest, pollPage x t channelKey fails maxId (pre ++ rest) s =
      pollPage x t channelKey fails newest rest (pollPage x t channelKey fails maxId pre s).2 := by
  induction pre generalizing maxId s with
  | nil => exact ⟨maxId, rfl⟩
  | cons next pre ih =>
    rw [List.forall_mem_cons] at hpre
    cases next with
    | failed error => exact absurd rfl (hpre.1 error)
    | message post observedAt faults =>
      rw [List.cons_append]
      rw [pollPage] at hpanic
      simp only [pollPage]
      split at hpanic
      · cases hpanic
      · rename_i hgo
        rw [if_neg hgo, if_neg hgo]
        exact ih hpre.2 hpanic

/-- The row of a new message has its text. -/
theorem insertMessage_row (hnew : s.messages m.key = none) :
    ∃ row, (s.insertMessage x m).2.messages m.key = some row ∧ row.textContent = m.text := by
  rw [PgMessageStore.insertMessage]
  simp only [hnew, KeyedTable.set_self]
  exact ⟨_, rfl, rfl⟩

/-- The version of a message holds its first content for good. -/
theorem holds_ingest (hallow : s.channelAllowlisted m.channelKey = true)
    (hkey : m.key = versionKey channelKey id version) (htext : m.text = contentOf text)
    (hs : Holds t channelKey id s version content) :
    Holds t channelKey id (ingestMessage x t noFaults m s).2 version (some (content.getD text)) := by
  cases content with
  | some old =>
    obtain ⟨⟨row, hrow, hcontent⟩, hmentions⟩ := hs
    have hstored : (s.messages m.key).isSome := by
      rw [hkey, hrow]
      rfl
    obtain ⟨-, hsame⟩ := deliver_known (x := x) (t := t) (d := ⟨m, noFaults⟩) hstored
    obtain hrow' | ⟨-, hnone⟩ := @ingestMessage_messages x t s m noFaults m.key
    · refine ⟨⟨row, ?_, hcontent⟩, ?_⟩
      · rw [← hkey, hrow', hkey, hrow]
      · rw [mentionsOf]
        exact (congrArg (fun table => List.map MentionRow.said
          ((table.rows.map Prod.snd).filter fun r => r.message =
            versionKey channelKey id version)) hsame).trans hmentions
    · rw [hnone] at hstored
      cases hstored
  | none =>
    obtain ⟨hnew, hnone⟩ := hs
    rw [← hkey] at hnew hnone
    obtain ⟨-, hstop⟩ | ⟨-, -, -, hgo⟩ := ingestMessage_cases x t s m noFaults
    · simp [hallow, noFaults] at hstop
    · obtain ⟨row, hrow, hcontent⟩ := insertMessage_row (x := x) hnew
      rw [if_pos (insertMessage_messages.1.mpr hnew)] at hgo
      rw [Option.getD_none, Holds, ← hkey, ← htext]
      cases hparse : parseMessageText t m.text with
      | none =>
        -- the text panics behind the insertion of the message
        rw [hparse] at hgo
        rw [hgo]
        refine ⟨⟨row, hrow, hcontent⟩, ?_⟩
        rw [mentionsOf, insertMessage_mentions, ← mentionsOf, hnone]
        rfl
      | some parsed =>
        obtain ⟨-, n, hn, hmentions, hall⟩ := deliver_first (x := x) (d := ⟨m, noFaults⟩) hallow hnew hnone hparse rfl
        rw [hall.mpr fun _ _ => rfl, List.take_length] at hmentions
        refine ⟨⟨row, ?_, hcontent⟩, ?_⟩
        · rw [hgo, hparse]
          dsimp only
          rw [(insertMentions_store _ _).1]
          exact hrow
        · have hsaid := congrArg (List.map MentionRow.said) hmentions
          rw [List.map_map] at hsaid
          exact hsaid

theorem holds_ingest_ne {post : Post} {observedAt : DateTime}
    (hne : (rawMessage channelKey post observedAt).editVersion ≠ version)
    (hs : Holds t channelKey id s version content) :
    Holds t channelKey id (ingestMessage x t noFaults (rawMessage channelKey post observedAt) s).2 version content := by
  have hkey : (rawMessage channelKey post observedAt).key ≠ versionKey channelKey id version := by
    intro heq
    exact hne (congrArg (fun k => k.2.2) heq)
  cases content with
  | none =>
    rw [Holds, ingest_key_ne hkey, mentionsOf_ingest_ne hkey]
    exact hs
  | some text =>
    rw [Holds, ingest_key_ne hkey, mentionsOf_ingest_ne hkey]
    exact hs

/-- A poll that observes the message fills its version, where that is still free. -/
theorem holds_observes (hallow : s.channelAllowlisted channelKey = true)
    (hobserves : Observes x t channelKey id edited text poll s) (contents : Int32 → Option String)
    (hs : ∀ version, Holds t channelKey id s version (contents version)) :
    (pollChannel x t channelKey poll s).2.channelAllowlisted channelKey = true ∧
      ∀ version, Holds t channelKey id (pollChannel x t channelKey poll s).2 version
        (if version = (if edited then 1 else 0) then some ((contents version).getD text) else contents version) := by
  obtain ⟨hfound, pre, post, observedAt, rest, hpage, rfl, rfl, rfl, hpre, hrest, hpanic⟩ := hobserves
  obtain ⟨newest, happend⟩ := pollPage_append (.message post observedAt noFaults :: rest)
    (fun next hnext => (hpre next hnext).2) hpanic
  have hbefore : SameMessage channelKey post.id s (pollPage x t channelKey poll.errorFails 0 pre s).2 :=
    sameMessage_pollPage fun next hnext => (hpre next hnext).1
  generalize (pollPage x t channelKey poll.errorFails 0 pre s).2 = s₁ at happend hbefore
  have hbehind : SameMessage channelKey post.id
      (ingestMessage x t noFaults (rawMessage channelKey post observedAt) s₁).2
        (pollChannel x t channelKey poll s).2 := by
    refine SameMessage.trans ?_ (sameMessage_pollChannel hfound)
    rw [hpage, happend, pollPage]
    split
    · exact .refl _
    · exact sameMessage_pollPage hrest
  have hallow' := hbefore.allowlisted hallow
  refine ⟨hbehind.allowlisted (allowlisted_ingest.trans hallow'), fun version => hbehind.holds ?_⟩
  have hs' := hbefore.holds (hs version)
  by_cases hversion : version = (rawMessage channelKey post observedAt).editVersion
  · have hkey : (rawMessage channelKey post observedAt).key = versionKey channelKey post.id version := by
      rw [hversion]
      rfl
    exact if_pos (c := version = _) hversion ▸ holds_ingest hallow' hkey rfl hs'
  · exact if_neg (c := version = _) hversion ▸ holds_ingest_ne (fun heq => hversion heq.symm) hs'

/-! ## Runs -/

/-- What is stored of the message after the contents that were observed. -/
structure EditsTracked (t : TextCrates) (channelKey : String) (id : Int32) (w : EditWorld) : Prop where
  allowlisted : w.store.channelAllowlisted channelKey = true
  holds : ∀ version, Holds t channelKey id w.store version (versionText w.observed version)
  /-- The original is there before an edit. -/
  original : w.observed = [] → w.unseen.isSome

variable {w w' : EditWorld} {action : EditAction} {actions : List EditAction}

theorem versionText_observes {observed : List String} {unseen : Option String} (hsome : observed = [] → unseen.isSome)
    (htext : (observed ++ unseen.toList).getLast? = some text) (version : Int32) :
    versionText (observed ++ unseen.toList) version =
      if version = (if decide (1 < (observed ++ unseen.toList).length) then 1 else 0) then
        some ((versionText observed version).getD text)
      else versionText observed version := by
  -- the first two contents are all that matter
  cases observed with
  | nil =>
    cases unseen with
    | none => exact absurd (hsome rfl) Bool.false_ne_true
    | some u =>
      cases htext
      by_cases h0 : version = 0
      · simp [versionText, h0]
      · simp [versionText, h0]
  | cons a observed =>
    cases observed with
    | nil =>
      cases unseen with
      | none =>
        cases htext
        by_cases h0 : version = 0
        · simp [versionText, h0]
        · simp [versionText, h0]
      | some u =>
        cases htext
        by_cases h1 : version = 1
        · simp [versionText, h1]
        · simp [versionText, h1]
    | cons b observed =>
      by_cases h1 : version = 1
      · simp [versionText, h1]
      · simp [versionText, h1]

theorem EditsTracked.step (h : EditsTracked t channelKey id w) (hstep : EditStep x t channelKey id w action w') :
    EditsTracked t channelKey id w' := by
  cases action with
  | edit text =>
    obtain ⟨-, -, rfl⟩ := hstep
    exact ⟨h.allowlisted, h.holds, fun _ => rfl⟩
  | poll poll =>
    obtain ⟨hstore, ⟨hskips, hobserved, hunseen⟩ | ⟨⟨text, htext, hobserves⟩, hobserved, hunseen⟩⟩ := hstep
    · have hsame : SameMessage channelKey id w.store w'.store := hstore ▸ sameMessage_skips hskips
      refine ⟨hsame.allowlisted h.allowlisted, fun version => ?_, ?_⟩
      · rw [hobserved]
        exact hsame.holds (h.holds version)
      · rw [hobserved, hunseen]
        exact h.original
    · obtain ⟨hallow, hholds⟩ := holds_observes h.allowlisted hobserves (versionText w.observed) h.holds
      rw [← hstore] at hallow hholds
      refine ⟨hallow, fun version => ?_, fun hnil => ?_⟩
      · rw [hobserved, EditWorld.contents, versionText_observes h.original htext]
        exact hholds version
      · rw [hobserved] at hnil
        rw [hnil] at htext
        cases htext

theorem editsTracked_new (hnew : NewMessage channelKey id w) (hunseen : w.unseen.isSome) :
    EditsTracked t channelKey id w := by
  refine ⟨hnew.allowlisted, fun version => ?_, fun _ => hunseen⟩
  have hnone : versionText w.observed version = none := by simp [versionText, hnew.unobserved]
  rw [hnone]
  exact ⟨hnew.messages version, hnew.mentions version⟩

theorem contentOf_injective {a b : String} (h : contentOf a = contentOf b) : a = b := by
  rw [contentOf, contentOf] at h
  by_cases ha : a.isEmpty = true
  · by_cases hb : b.isEmpty = true
    · rw [String.isEmpty_iff.mp ha, String.isEmpty_iff.mp hb]
    · rw [if_pos ha, if_neg hb] at h
      cases h
  · by_cases hb : b.isEmpty = true
    · rw [if_neg ha, if_pos hb] at h
      cases h
    · rw [if_neg ha, if_neg hb] at h
      exact Option.some.inj h

theorem mem_take_two_iff {observed : List String} :
    text ∈ observed.take 2 ↔ ∃ version, versionText observed version = some text := by
  constructor
  · intro h
    cases observed with
    | nil => cases h
    | cons a observed =>
      obtain rfl | h := List.mem_cons.mp h
      · exact ⟨0, rfl⟩
      · cases observed with
        | nil => cases h
        | cons b observed =>
          rw [List.take_succ_cons, List.take_zero, List.mem_singleton] at h
          exact ⟨1, by rw [h]; rfl⟩
  · rintro ⟨version, h⟩
    rw [versionText] at h
    split at h
    · exact List.mem_of_getElem? ((List.getElem?_take_of_lt (by decide)).trans h)
    · split at h
      · exact List.mem_of_getElem? ((List.getElem?_take_of_lt (by decide)).trans h)
      · cases h

/-- A content is kept exactly where it is one of the first two and parses. -/
theorem kept_iff (h : EditsTracked t channelKey id w) : Kept t channelKey id w.store text ↔
    text ∈ w.observed.take 2 ∧ (parseMessageText t (contentOf text)).isSome := by
  rw [mem_take_two_iff]
  constructor
  · rintro ⟨version, row, parsed, hrow, hcontent, hparse, -⟩
    refine ⟨⟨version, ?_⟩, by rw [hparse]; rfl⟩
    have hholds := h.holds version
    cases hversion : versionText w.observed version with
    | none =>
      rw [hversion] at hholds
      rw [hholds.1] at hrow
      cases hrow
    | some old =>
      rw [hversion] at hholds
      obtain ⟨⟨row', hrow', hcontent'⟩, -⟩ := hholds
      rw [hrow, Option.some.injEq] at hrow'
      rw [← hrow', hcontent] at hcontent'
      rw [contentOf_injective hcontent']
  · rintro ⟨⟨version, hversion⟩, hparse⟩
    obtain ⟨parsed, hparsed⟩ := Option.isSome_iff_exists.mp hparse
    have hholds := h.holds version
    rw [hversion] at hholds
    obtain ⟨⟨row, hrow, hcontent⟩, hmentions⟩ := hholds
    rw [hparsed] at hmentions
    exact ⟨version, row, parsed, hrow, hcontent, hparsed, hmentions⟩

end

/-- After any observed edits, a row has the text of each content of the message and its mentions are stored, exactly
    where no edit behind the first has a new text and the first two contents parse. -/
theorem edits_kept_iff {x : Crates} {t : TextCrates} {channelKey : String} {id : Int32} {w w' : EditWorld}
    {actions : List EditAction} (h : Run (EditStep x t channelKey id) w actions w') (hnew : NewMessage channelKey id w)
    (hunseen : w.unseen.isSome) :
    (∀ text ∈ w'.observed, Kept t channelKey id w'.store text) ↔
      (∀ text ∈ w'.observed.drop 2, text ∈ w'.observed.take 2) ∧
        ∀ text ∈ w'.observed.take 2, (parseMessageText t (contentOf text)).isSome := by
  have htracked : EditsTracked t channelKey id w' :=
    h.invariant (editsTracked_new hnew hunseen) fun _ _ _ hs hstep => hs.step hstep
  simp only [kept_iff htracked]
  have hsplit : ∀ text, text ∈ w'.observed ↔ text ∈ w'.observed.take 2 ∨ text ∈ w'.observed.drop 2 := by
    intro text
    rw [← List.mem_append, List.take_append_drop]
  refine ⟨fun hall => ⟨fun text htext => ?_, fun text htext => ?_⟩, fun hall text htext => ?_⟩
  · exact (hall text ((hsplit text).mpr (Or.inr htext))).1
  · exact (hall text ((hsplit text).mpr (Or.inl htext))).2
  · have hfirst : text ∈ w'.observed.take 2 := ((hsplit text).mp htext).elim (fun h => h) (hall.1 text)
    exact ⟨hfirst, hall.2 text hfirst⟩

/-! ## A message that is edited twice -/

/-- A poll of a channel with one post. -/
def onePost (text : String) (editDate : Option DateTime) : Poll :=
  ⟨.found, 10, [.message ⟨1, editDate, 0, none, none, text, false⟩ 0 noFaults], false, false, 0⟩

theorem observes_onePost (text : String) (editDate : Option DateTime) (s : PgMessageStore) :
    Observes (tableCrates [] [] []) latinCrates "chan" 1 editDate.isSome text (onePost text editDate) s :=
  ⟨rfl, [], _, 0, [], rfl, rfl, rfl, rfl, fun _ h => absurd h List.not_mem_nil, fun _ h => absurd h List.not_mem_nil,
    rfl⟩

def afterPolls (polls : List Poll) : PgMessageStore :=
  polls.foldl (fun s p => (pollChannel (tableCrates [] [] []) latinCrates "chan" p s).2) oneChannel

/-- The original and an edit of it are polled, each once. -/
def editActions (a b : String) : List EditAction :=
  [.poll (onePost a none), .edit b, .poll (onePost b (some 0))]

theorem oneEdit_run {a b : String} (hab : a ≠ b) :
    Run (EditStep (tableCrates [] [] []) latinCrates "chan" 1) ⟨oneChannel, [], some a⟩ (editActions a b)
      ⟨afterPolls [onePost a none, onePost b (some 0)], [a, b], none⟩ := by
  refine ⟨⟨afterPolls [onePost a none], [a], none⟩, ⟨rfl, Or.inr ⟨⟨a, rfl, observes_onePost a none _⟩, rfl, rfl⟩⟩, ?_⟩
  refine ⟨⟨afterPolls [onePost a none], [a], some b⟩, ⟨rfl, fun h => hab (Option.some.inj h), rfl⟩, ?_⟩
  exact ⟨_, ⟨rfl, Or.inr ⟨⟨b, rfl, observes_onePost b (some 0) _⟩, rfl, rfl⟩⟩, rfl⟩

theorem twoEdits_run {a b c : String} (hab : a ≠ b) (hbc : b ≠ c) :
    Run (EditStep (tableCrates [] [] []) latinCrates "chan" 1) ⟨oneChannel, [], some a⟩
      (editActions a b ++ [.edit c, .poll (onePost c (some 0))])
      ⟨afterPolls [onePost a none, onePost b (some 0), onePost c (some 0)], [a, b, c], none⟩ := by
  refine run_append.mpr ⟨_, oneEdit_run hab, ?_⟩
  refine ⟨⟨afterPolls [onePost a none, onePost b (some 0)], [a, b], some c⟩,
    ⟨rfl, fun h => hbc (Option.some.inj h), rfl⟩, ?_⟩
  exact ⟨_, ⟨rfl, Or.inr ⟨⟨c, rfl, observes_onePost c (some 0) _⟩, rfl, rfl⟩⟩, rfl⟩

theorem newMessage_oneChannel (a : String) : NewMessage "chan" 1 ⟨oneChannel, [], some a⟩ :=
  ⟨rfl, fun _ => rfl, fun _ => rfl, rfl⟩

/-- One edit is kept with the original. -/
theorem one_edit_kept :
    Kept latinCrates "chan" 1 (afterPolls [onePost "x" none, onePost "y" (some 0)]) "x" ∧
      Kept latinCrates "chan" 1 (afterPolls [onePost "x" none, onePost "y" (some 0)]) "y" := by
  have hall : ∀ text ∈ ["x", "y"],
      Kept latinCrates "chan" 1 (afterPolls [onePost "x" none, onePost "y" (some 0)]) text := by
    refine (edits_kept_iff (oneEdit_run (by decide)) (newMessage_oneChannel "x") rfl).mpr ⟨?_, ?_⟩
    · decide
    · decide +kernel
  exact ⟨hall "x" (by simp), hall "y" (by simp)⟩

/-- A second edit is not. -/
theorem second_edit_lost :
    Run (EditStep (tableCrates [] [] []) latinCrates "chan" 1) ⟨oneChannel, [], some "x"⟩
        (editActions "x" "y" ++ [.edit "z", .poll (onePost "z" (some 0))])
        ⟨afterPolls [onePost "x" none, onePost "y" (some 0), onePost "z" (some 0)], ["x", "y", "z"], none⟩ ∧
      NewMessage "chan" 1 ⟨oneChannel, [], some "x"⟩ ∧
      ¬ Kept latinCrates "chan" 1 (afterPolls [onePost "x" none, onePost "y" (some 0), onePost "z" (some 0)]) "z" := by
  have hrun := twoEdits_run (a := "x") (b := "y") (c := "z") (by decide) (by decide)
  refine ⟨hrun, newMessage_oneChannel "x", fun hkept => ?_⟩
  have htracked := hrun.invariant (editsTracked_new (newMessage_oneChannel "x") rfl) fun _ _ _ hs hstep => hs.step hstep
  exact absurd ((kept_iff htracked).mp hkept).1 (by decide)

end WhaleIntelligence.Telegram
