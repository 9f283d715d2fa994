import WhaleIntelligence.Telegram.Mentions
import WhaleIntelligence.Telegram.Poll

/- The cursor of a channel over its polls.

   Posts arrive with growing ids, and a poll meets the newest of them first. The
   posts since the first successful poll are ghost state (`recent`): what the cursor
   promises is that those at or below it are stored (`Sound`). The promise is kept
   where no poll lowers the cursor and every poll stores what it moves the cursor past
   (`Covers`); nothing in the code sees to either. -/
namespace WhaleIntelligence.Telegram
open WhaleIntelligence Runs

/-! ## One page -/

/-- The loop is cut short: the store fails after an error of the channel, or a text panics. -/
def Interrupted (t : TextCrates) (channelKey : String) (errorFails : Bool) (page : List Next)
    (s : PgMessageStore) : Prop :=
  (∃ text, Next.failed text ∈ page ∧ errorFails = true ∧ (classifyError t.toLowerCase text).status.isSome) ∨
    ∃ post observedAt faults, Next.message post observedAt faults ∈ page ∧ faults.channelAllowlisted = false ∧
      faults.insertMessage = false ∧ s.channelAllowlisted channelKey = true ∧
      s.messages (rawMessage channelKey post observedAt).key = none ∧
      parseMessageText t (rawMessage channelKey post observedAt).text = none

/-- The iterator yields the posts, newest first; an error ends it anywhere. -/
def Yields : List Int32 → List Next → Prop
  | posted, [] => posted = []
  | _, .failed _ :: rest => rest = []
  | posted, .message post _ _ :: rest => ∃ older, posted = post.id :: older ∧ Yields older rest

/-- The items are the first that the iterator yields. -/
def YieldsFirst : List Int32 → List Next → Prop
  | _, [] => True
  | _, .failed _ :: rest => rest = []
  | posted, .message post _ _ :: rest => ∃ older, posted = post.id :: older ∧ YieldsFirst older rest

section
variable {x : Crates} {t : TextCrates} {channelKey : String} {s : PgMessageStore} {limit fetched : Nat}
  {errorFails : Bool} {maxId id : Int32} {nexts page : List Next} {posted : List Int32}

theorem yieldsFirst_take (h : Yields posted nexts) (n : Nat) : YieldsFirst posted (nexts.take n) := by
  induction nexts generalizing posted n with
  | nil =>
    rw [List.take_nil]
    trivial
  | cons next rest ih =>
    cases n with
    | zero => exact trivial
    | succ n =>
      rw [List.take_succ_cons]
      cases next with
      | failed text =>
        obtain rfl : rest = [] := h
        exact List.take_nil
      | message post observedAt faults =>
        obtain ⟨older, hposted, hrest⟩ := h
        exact ⟨older, hposted, ih hrest n⟩

theorem id_mem_of_yieldsFirst {post : Post} {observedAt : DateTime} {faults : Faults} (h : YieldsFirst posted page)
    (hmem : Next.message post observedAt faults ∈ page) : post.id ∈ posted := by
  induction page generalizing posted with
  | nil => exact absurd hmem List.not_mem_nil
  | cons next rest ih =>
    cases next with
    | failed text =>
      obtain rfl : rest = [] := h
      cases List.mem_singleton.mp hmem
    | message post' observedAt' faults' =>
      obtain ⟨older, rfl, hrest⟩ := h
      obtain heq | hmem := List.mem_cons.mp hmem
      · cases heq
        exact List.mem_cons_self
      · exact List.mem_cons_of_mem _ (ih hrest hmem)

/-- The page without its count: what the loop does with the items that the limit admits. -/
def pollPage (x : Crates) (t : TextCrates) (channelKey : String) (errorFails : Bool) :
    Int32 → List Next → PgMessageStore → Except (Abort Unit) Int32 × PgMessageStore
  | maxId, [], s => (.ok maxId, s)
  | maxId, .failed text :: _, s =>
    let handled := handleChannelError errorFails channelKey (classifyError t.toLowerCase text) s
    (handled.1.map fun _ => maxId, handled.2)
  | maxId, .message post observedAt faults :: rest, s =>
    let ingested := ingestMessage x t faults (rawMessage channelKey post observedAt) s
    if panicked ingested.1 then (.error .panic, ingested.2)
    else pollPage x t channelKey errorFails (Next.newer maxId (.message post observedAt faults)) rest ingested.2

theorem pollLoop_page (fetched : Nat) (maxId : Int32) (nexts : List Next) (s : PgMessageStore) :
    (pollLoop x t channelKey limit errorFails fetched maxId nexts s).2 =
      (pollPage x t channelKey errorFails maxId (nexts.take (limit - fetched)) s).2 ∧
    (pollLoop x t channelKey limit errorFails fetched maxId nexts s).1.map Prod.snd =
      (pollPage x t channelKey errorFails maxId (nexts.take (limit - fetched)) s).1 := by
  induction nexts generalizing fetched maxId s with
  | nil =>
    rw [List.take_nil]
    exact ⟨rfl, rfl⟩
  | cons next rest ih =>
    by_cases hlt : fetched < limit
    · obtain ⟨n, hn⟩ : ∃ n, limit - fetched = n + 1 := ⟨limit - fetched - 1, by omega⟩
      have hn' : limit - (fetched + 1) = n := by omega
      rw [hn, List.take_succ_cons]
      cases next with
      | failed text =>
        rw [pollLoop, if_pos hlt, pollPage]
        refine ⟨rfl, ?_⟩
        show Except.map Prod.snd (Except.map _ _) = Except.map _ _
        cases (handleChannelError errorFails channelKey (classifyError t.toLowerCase text) s).1 <;> rfl
      | message post observedAt faults =>
        simp only [pollLoop, if_pos hlt, pollPage]
        split
        · exact ⟨rfl, rfl⟩
        · rw [← hn']
          exact ih ..
    · have hzero : limit - fetched = 0 := by omega
      rw [hzero, List.take_zero]
      cases next with
      | failed text =>
        rw [pollLoop, if_neg hlt]
        exact ⟨rfl, rfl⟩
      | message post observedAt faults =>
        rw [pollLoop, if_neg hlt]
        exact ⟨rfl, rfl⟩

theorem stored_mono {s' : PgMessageStore} (h : ∀ k, s'.messages k = s.messages k ∨ s.messages k = none)
    (hid : Stored channelKey s id) : Stored channelKey s' id := by
  obtain ⟨version, hsome⟩ := hid
  refine ⟨version, ?_⟩
  obtain hsame | hnone := h (channelKey, id.toInt64, version)
  · rw [hsame]
    exact hsome
  · rw [hnone] at hsome
    cases hsome

theorem stored_ingest {m : RawChannelMessage} {faults : Faults} (hid : Stored channelKey s id) :
    Stored channelKey (ingestMessage x t faults m s).2 id :=
  stored_mono (fun k => (ingestMessage_messages k).imp_right And.right) hid

theorem allowlisted_ingest {m : RawChannelMessage} {faults : Faults} :
    (ingestMessage x t faults m s).2.channelAllowlisted channelKey = s.channelAllowlisted channelKey := by
  rw [PgMessageStore.channelAllowlisted, ingestMessage_channels]
  rfl

theorem toInt64_injective {i j : Int32} (h : i.toInt64 = j.toInt64) : i = j := by
  rw [← Int32.toInt_inj, ← Int32.toInt_toInt64, h, Int32.toInt_toInt64]

/-- A page leaves the cursor and every stored message. -/
theorem pollPage_keeps (x : Crates) (t : TextCrates) (channelKey : String) (errorFails : Bool) (maxId : Int32)
    (page : List Next) (s : PgMessageStore) :
      cursorOf channelKey (pollPage x t channelKey errorFails maxId page s).2 = cursorOf channelKey s ∧
    ∀ id, Stored channelKey s id → Stored channelKey (pollPage x t channelKey errorFails maxId page s).2 id := by
  induction page generalizing maxId s with
  | nil => exact ⟨rfl, fun _ h => h⟩
  | cons next rest ih =>
    cases next with
    | failed text =>
      refine ⟨cursorOf_handleChannelError _ _, fun id hid => ?_⟩
      refine stored_mono (fun k => Or.inl ?_) hid
      exact congrFun handleChannelError_store.1 k
    | message post observedAt faults =>
      have hcursor : cursorOf channelKey (ingestMessage x t faults (rawMessage channelKey post observedAt) s).2 =
          cursorOf channelKey s := by
        rw [cursorOf, ingestMessage_channels]
        rfl
      rw [pollPage]
      split
      · exact ⟨hcursor, fun id hid => stored_ingest hid⟩
      · obtain ⟨hrest, hkeep⟩ := ih (Next.newer maxId (.message post observedAt faults))
          (ingestMessage x t faults (rawMessage channelKey post observedAt) s).2
        exact ⟨hrest.trans hcursor, fun id hid => hkeep id (stored_ingest hid)⟩

/-- A page stores no other message than its own. -/
theorem stored_of_pollPage (h : Stored channelKey (pollPage x t channelKey errorFails maxId page s).2 id) :
    Stored channelKey s id ∨ ∃ post observedAt faults, Next.message post observedAt faults ∈ page ∧ post.id = id := by
  induction page generalizing maxId s with
  | nil => exact Or.inl h
  | cons next rest ih =>
    cases next with
    | failed text =>
      obtain ⟨version, hsome⟩ := h
      refine Or.inl ⟨version, ?_⟩
      rw [← handleChannelError_store.1]
      exact hsome
    | message post observedAt faults =>
      have hown : Stored channelKey (ingestMessage x t faults (rawMessage channelKey post observedAt) s).2 id →
          Stored channelKey s id ∨ post.id = id := by
        intro hid
        obtain ⟨version, hsome⟩ := hid
        obtain hsame | ⟨hkey, -⟩ := ingestMessage_messages (x := x) (t := t) (s := s)
          (m := rawMessage channelKey post observedAt) (channelKey, id.toInt64, version)
        · exact Or.inl ⟨version, hsame ▸ hsome⟩
        · exact Or.inr (toInt64_injective (congrArg (fun k => k.2.1) hkey)).symm
      have hhere : post.id = id → ∃ post' observedAt' faults',
          Next.message post' observedAt' faults' ∈ Next.message post observedAt faults :: rest ∧ post'.id = id :=
        fun hid => ⟨post, observedAt, faults, List.mem_cons_self, hid⟩
      rw [pollPage] at h
      split at h
      · exact (hown h).imp_right hhere
      · obtain hbefore | ⟨post', observedAt', faults', hmem, hid⟩ := ih h
        · exact (hown hbefore).imp_right hhere
        · exact Or.inr ⟨post', observedAt', faults', List.mem_cons_of_mem _ hmem, hid⟩

/-- A page that is not cut short ends with its newest id and has stored what it fetched. -/
theorem pollPage_ok {newest : Int32} (hyields : YieldsFirst posted page)
    (hallow : s.channelAllowlisted channelKey = true)
    (h : (pollPage x t channelKey errorFails maxId page s).1 = .ok newest) :
    ∀ id, Fetches page id → Stored channelKey (pollPage x t channelKey errorFails maxId page s).2 id := by
  induction page generalizing posted maxId s with
  | nil =>
    intro id hid
    obtain ⟨post, observedAt, faults, hmem, -⟩ := hid
    exact absurd hmem List.not_mem_nil
  | cons next rest ih =>
    intro id hid
    obtain ⟨post', observedAt', faults', hmem, rfl, hread, hinsert⟩ := hid
    cases next with
    | failed text =>
      obtain rfl : rest = [] := hyields
      cases List.mem_singleton.mp hmem
    | message post observedAt faults =>
      obtain ⟨older, -, hrest⟩ := hyields
      rw [pollPage] at h ⊢
      split at h
      · cases h
      · rename_i hgo
        rw [if_neg hgo]
        obtain heq | hmem := List.mem_cons.mp hmem
        · cases heq
          refine (pollPage_keeps ..).2 _ ⟨(rawMessage channelKey post' observedAt').editVersion, ?_⟩
          exact ingestMessage_stores (m := rawMessage channelKey post' observedAt') hallow hread hinsert
        · exact ih hrest (allowlisted_ingest.trans hallow) h post'.id
            ⟨post', observedAt', faults', hmem, rfl, hread, hinsert⟩

theorem pollPage_newest {newest : Int32} (hyields : YieldsFirst posted page)
    (h : (pollPage x t channelKey errorFails maxId page s).1 = .ok newest) : newest = page.foldl Next.newer maxId := by
  induction page generalizing posted maxId s with
  | nil =>
    cases h
    rfl
  | cons next rest ih =>
    cases next with
    | failed text =>
      obtain rfl : rest = [] := hyields
      rw [pollPage] at h
      cases hhandled : (handleChannelError errorFails channelKey (classifyError t.toLowerCase text) s).1 with
      | error e => simp [hhandled, Except.map] at h
      | ok u =>
        simp only [hhandled, Except.map, Except.ok.injEq] at h
        exact h.symm
    | message post observedAt faults =>
      obtain ⟨older, -, hrest⟩ := hyields
      rw [pollPage] at h
      split at h
      · cases h
      · exact ih hrest h

/-- A page that is cut short returns an error or panics. -/
theorem pollPage_interrupted (x : Crates) (maxId : Int32) (hyields : YieldsFirst posted page)
    (hsorted : posted.Pairwise fun a b => b < a) (h : Interrupted t channelKey errorFails page s) :
    ∃ e, (pollPage x t channelKey errorFails maxId page s).1 = .error e := by
  induction page generalizing posted maxId s with
  | nil =>
    obtain ⟨text, hmem, -⟩ | ⟨post, observedAt, faults, hmem, -⟩ := h
    · exact absurd hmem List.not_mem_nil
    · exact absurd hmem List.not_mem_nil
  | cons next rest ih =>
    cases next with
    | failed text =>
      obtain rfl : rest = [] := hyields
      obtain ⟨text', hmem, hfails, hstatus⟩ | ⟨post, observedAt, faults, hmem, -⟩ := h
      · cases List.mem_singleton.mp hmem
        obtain ⟨status, hstatus⟩ := Option.isSome_iff_exists.mp hstatus
        simp only [pollPage, handleChannelError, hstatus, hfails]
        exact ⟨.error (), rfl⟩
      · cases List.mem_singleton.mp hmem
    | message post observedAt faults =>
      obtain ⟨older, rfl, hrest⟩ := hyields
      rw [List.pairwise_cons] at hsorted
      rw [pollPage]
      split
      · exact ⟨_, rfl⟩
      · rename_i hgo
        refine ih _ hrest hsorted.2 ?_
        obtain ⟨text, hmem, hfails⟩ | ⟨post', observedAt', faults', hmem, hread, hinsert, hallow, hnew, hparse⟩ := h
        · obtain heq | hmem := List.mem_cons.mp hmem
          · cases heq
          · exact Or.inl ⟨text, hmem, hfails⟩
        · obtain heq | hmem := List.mem_cons.mp hmem
          · cases heq
            rw [ingestMessage_panics hallow hread hinsert hnew hparse] at hgo
            exact absurd rfl hgo
          · refine Or.inr ⟨post', observedAt', faults', hmem, hread, hinsert,
              allowlisted_ingest.trans hallow, ?_, hparse⟩
            obtain hsame | ⟨hkey, -⟩ := ingestMessage_messages (rawMessage channelKey post' observedAt').key
            · exact hsame.trans hnew
            · -- the ids of a page are distinct
              have hid : post'.id = post.id := toInt64_injective (congrArg (fun k => k.2.1) hkey)
              have hlt := hsorted.1 _ (id_mem_of_yieldsFirst hrest hmem)
              rw [hid] at hlt
              exact absurd hlt Int32.lt_irrefl

end

/-! ## A poll -/

section
variable {x : Crates} {t : TextCrates} {channelKey : String} {s : PgMessageStore} {poll : Poll}

/-- The poll resolves the channel and returns `Ok`. -/
def Succeeds (x : Crates) (t : TextCrates) (channelKey : String) (poll : Poll) (s : PgMessageStore) : Prop :=
  poll.resolved = .found ∧ ∃ n, (pollChannel x t channelKey poll s).1 = .ok n

/-- A poll of a channel that is found returns the error that cuts its page short, or the one of the last write, or it
    writes the newest id. -/
theorem pollChannel_found (x : Crates) (t : TextCrates) (channelKey : String) (s : PgMessageStore)
    (h : poll.resolved = .found) :
    (∃ e, (pollPage x t channelKey poll.errorFails 0 poll.page s).1 = .error e ∧
        pollChannel x t channelKey poll s = (.error e, (pollPage x t channelKey poll.errorFails 0 poll.page s).2)) ∨
      ∃ newest fetched, (pollPage x t channelKey poll.errorFails 0 poll.page s).1 = .ok newest ∧
        pollChannel x t channelKey poll s =
          if poll.cursorFails then (.error (.error ()), (pollPage x t channelKey poll.errorFails 0 poll.page s).2)
          else (.ok fetched, (pollPage x t channelKey poll.errorFails 0 poll.page s).2.updateChannel channelKey
            ChannelStatus.active.asStr (some (toString newest.toInt)) (some poll.now)) := by
  obtain ⟨hstore, hresult⟩ := @pollLoop_page x t channelKey (poll.limit % 4294967296) poll.errorFails 0 0 poll.nexts s
  rw [Nat.sub_zero, ← Poll.page] at hstore hresult
  rw [← hstore, ← hresult]
  simp only [pollChannel, h]
  cases (pollLoop x t channelKey (poll.limit % 4294967296) poll.errorFails 0 0 poll.nexts s).1 with
  | error e => exact Or.inl ⟨e, rfl, rfl⟩
  | ok result => exact Or.inr ⟨result.2, result.1, rfl, rfl⟩

/-- An error of the channel leaves the cursor and every stored message. -/
theorem handleChannelError_keeps (fails : Bool) (channelKey : String) (error : TelegramError) (s : PgMessageStore) :
    cursorOf channelKey (handleChannelError fails channelKey error s).2 = cursorOf channelKey s ∧
      ∀ id, Stored channelKey s id → Stored channelKey (handleChannelError fails channelKey error s).2 id := by
  refine ⟨cursorOf_handleChannelError _ _, fun id hid => ?_⟩
  exact stored_mono (fun k => Or.inl (congrFun handleChannelError_store.1 k)) hid

/-- A poll that does not succeed leaves the cursor and every stored message; one that does sets the cursor to the
    newest id of its page. -/
theorem pollChannel_cases (x : Crates) (t : TextCrates) (channelKey : String) (poll : Poll) (s : PgMessageStore) :
    (¬ Succeeds x t channelKey poll s ∧
      cursorOf channelKey (pollChannel x t channelKey poll s).2 = cursorOf channelKey s ∧
        ∀ id, Stored channelKey s id → Stored channelKey (pollChannel x t channelKey poll s).2 id) ∨
      Succeeds x t channelKey poll s ∧ poll.cursorFails = false ∧
        ∃ newest, (pollPage x t channelKey poll.errorFails 0 poll.page s).1 = .ok newest ∧
          cursorOf channelKey (pollChannel x t channelKey poll s).2 = some (toString newest.toInt) ∧
          (pollChannel x t channelKey poll s).2.messages =
            (pollPage x t channelKey poll.errorFails 0 poll.page s).2.messages := by
  have hunresolved : poll.resolved ≠ .found → ¬ Succeeds x t channelKey poll s := fun h hs => h hs.1
  cases hresolved : poll.resolved with
  | missing =>
    refine Or.inl ⟨hunresolved (by rw [hresolved]; exact fun h => (by cases h)), ?_⟩
    rw [pollChannel, hresolved]
    exact handleChannelError_keeps poll.errorFails channelKey .channelNotFound s
  | failed text =>
    refine Or.inl ⟨hunresolved (by rw [hresolved]; exact fun h => (by cases h)), ?_⟩
    rw [pollChannel, hresolved]
    exact handleChannelError_keeps poll.errorFails channelKey (classifyError t.toLowerCase text) s
  | found =>
    have hkeeps := pollPage_keeps x t channelKey poll.errorFails 0 poll.page s
    have hstopped : ∀ e, pollChannel x t channelKey poll s =
          (.error e, (pollPage x t channelKey poll.errorFails 0 poll.page s).2) →
        ¬ Succeeds x t channelKey poll s ∧
          cursorOf channelKey (pollChannel x t channelKey poll s).2 = cursorOf channelKey s ∧
          ∀ id, Stored channelKey s id → Stored channelKey (pollChannel x t channelKey poll s).2 id := by
      intro e hpoll
      rw [hpoll]
      refine ⟨fun hs => ?_, hkeeps⟩
      obtain ⟨-, n, hn⟩ := hs
      rw [hpoll] at hn
      cases hn
    obtain ⟨e, -, hpoll⟩ | ⟨newest, fetched, hpage, hpoll⟩ := pollChannel_found x t channelKey s hresolved
    · exact Or.inl (hstopped e hpoll)
    · cases hfails : poll.cursorFails with
      | true =>
        rw [hfails, if_pos rfl] at hpoll
        exact Or.inl (hstopped (.error ()) hpoll)
      | false =>
        rw [hfails, if_neg Bool.false_ne_true] at hpoll
        refine Or.inr ⟨⟨hresolved, fetched, by rw [hpoll]⟩, rfl, newest, hpage, ?_, ?_⟩
        · rw [hpoll, cursorOf_updateChannel, Option.some_or]
        · rw [hpoll]
          rfl

/-- A poll stores no other message than those of its page. -/
theorem stored_of_pollChannel {id : Int32} (h : Stored channelKey (pollChannel x t channelKey poll s).2 id) :
    Stored channelKey s id ∨
      ∃ post observedAt faults, Next.message post observedAt faults ∈ poll.page ∧ post.id = id := by
  have hmessages : (pollChannel x t channelKey poll s).2.messages = s.messages ∨
      (pollChannel x t channelKey poll s).2.messages =
        (pollPage x t channelKey poll.errorFails 0 poll.page s).2.messages := by
    cases hresolved : poll.resolved with
    | missing =>
      left
      rw [pollChannel, hresolved]
      exact handleChannelError_store.1
    | failed text =>
      left
      rw [pollChannel, hresolved]
      exact handleChannelError_store.1
    | found =>
      right
      obtain ⟨e, -, hpoll⟩ | ⟨newest, fetched, -, hpoll⟩ := pollChannel_found x t channelKey s hresolved
      · rw [hpoll]
      · rw [hpoll]
        split
        · rfl
        · rfl
  obtain ⟨version, hsome⟩ := h
  obtain hsame | hpage := hmessages
  · exact Or.inl ⟨version, hsame ▸ hsome⟩
  · exact stored_of_pollPage ⟨version, hpage ▸ hsome⟩

end

/-! ## Runs -/

/-- A channel with its polls so far. -/
structure World where
  store : PgMessageStore
  /-- The ids of the posts, newest first. -/
  posted : List Int32
  /-- Ghost: the ids since the first successful poll. -/
  recent : Option (List Int32)

inductive Action
  | arrive (id : Int32)
  | poll (poll : Poll)

section
variable (x : Crates) (t : TextCrates) (channelKey : String)

def Step (w : World) : Action → World → Prop
  | .arrive id, w' => (∀ old ∈ w.posted, old < id) ∧
      w' = { w with posted := id :: w.posted, recent := w.recent.map (id :: ·) }
  | .poll poll, w' => Yields w.posted poll.nexts ∧ w'.store = (pollChannel x t channelKey poll w.store).2 ∧
      w'.posted = w.posted ∧ (Succeeds x t channelKey poll w.store → w'.recent = w.recent.or (some [])) ∧
      (¬ Succeeds x t channelKey poll w.store → w'.recent = w.recent)

/-- No poll of the channel has run. -/
structure Unpolled (w : World) : Prop where
  cursor : cursorOf channelKey w.store = none
  recent : w.recent = none
  sorted : w.posted.Pairwise fun a b => b < a

/-- The posts since the first successful poll that the cursor has passed are stored. -/
def Sound (w : World) : Prop :=
  ∀ recent, w.recent = some recent → ∀ id ∈ recent, ∀ c : Int, cursorOf channelKey w.store = some (toString c) →
    id.toInt ≤ c → Stored channelKey w.store id

/-- The second cursor is no lower than the first. -/
def CursorLe (before after : Option String) : Prop :=
  before = none ∨ ∃ c d : Int, before = some (toString c) ∧ after = some (toString d) ∧ c ≤ d

/-- A post has a positive id. A poll that gets to write the cursor meets an id of a page that is no lower than the
    cursor, and each of the recent posts up to that id is stored or fetched by the poll. -/
def Covers (w : World) : Action → Prop
  | .arrive id => 0 < id
  | .poll poll =>
    poll.resolved ≠ .found ∨ poll.cursorFails = true ∨ Interrupted t channelKey poll.errorFails poll.page w.store ∨
      (∀ c : Int, cursorOf channelKey w.store = some (toString c) → c ≤ (newestId poll.page).toInt) ∧
        ∀ recent, w.recent = some recent → ∀ id ∈ recent, id ≤ newestId poll.page →
          Stored channelKey w.store id ∨ w.store.channelAllowlisted channelKey = true ∧ Fetches poll.page id

/-- The cursor is a number, and a post or zero is no lower. -/
structure Tracked (w : World) : Prop where
  sorted : w.posted.Pairwise fun a b => b < a
  cursor : cursorOf channelKey w.store = none ∨ ∃ c : Int32, cursorOf channelKey w.store = some (toString c.toInt) ∧
    (c ≤ 0 ∨ ∃ id ∈ w.posted, c ≤ id)
  sound : Sound channelKey w

end

section
variable {x : Crates} {t : TextCrates} {channelKey : String} {w w' w'' : World} {action : Action}
  {actions actions' : List Action}

theorem newest_mem {posted : List Int32} {page : List Next} (hyields : YieldsFirst posted page) (maxId : Int32) :
    page.foldl Next.newer maxId = maxId ∨ page.foldl Next.newer maxId ∈ posted := by
  induction page generalizing posted maxId with
  | nil => exact Or.inl rfl
  | cons next rest ih =>
    rw [List.foldl_cons]
    cases next with
    | failed text =>
      obtain rfl : rest = [] := hyields
      exact Or.inl rfl
    | message post observedAt faults =>
      obtain ⟨older, rfl, hrest⟩ := hyields
      obtain hsame | hmem := ih hrest (Next.newer maxId (.message post observedAt faults))
      · rw [hsame, Next.newer]
        split
        · exact Or.inr List.mem_cons_self
        · exact Or.inl rfl
      · exact Or.inr (List.mem_cons_of_mem _ hmem)

theorem cursorLe_refl (h : Tracked channelKey w) :
    CursorLe (cursorOf channelKey w.store) (cursorOf channelKey w.store) := by
  obtain hnone | ⟨c, hc, -⟩ := h.cursor
  · exact Or.inl hnone
  · exact Or.inr ⟨c.toInt, c.toInt, hc, hc, le_refl _⟩

theorem CursorLe.trans {a b c : Option String} (hab : CursorLe a b) (hbc : CursorLe b c) : CursorLe a c := by
  obtain rfl | ⟨i, j, rfl, rfl, hij⟩ := hab
  · exact Or.inl rfl
  · obtain hnone | ⟨j', k, hj, rfl, hjk⟩ := hbc
    · cases hnone
    · rw [Option.some.injEq] at hj
      rw [← intText_injective hj] at hjk
      exact Or.inr ⟨i, k, rfl, rfl, hij.trans hjk⟩

theorem arrive_tracked {id : Int32} (h : Tracked channelKey w) (hstep : Step x t channelKey w (.arrive id) w')
    (hcovers : Covers t channelKey w (.arrive id)) : Tracked channelKey w' := by
  obtain ⟨hnewer, rfl⟩ := hstep
  refine ⟨List.pairwise_cons.mpr ⟨hnewer, h.sorted⟩, ?_, ?_⟩
  · obtain hnone | ⟨c, hc, hbound⟩ := h.cursor
    · exact Or.inl hnone
    · refine Or.inr ⟨c, hc, hbound.imp_right fun hold => ?_⟩
      obtain ⟨old, hold, hle⟩ := hold
      exact ⟨old, List.mem_cons_of_mem _ hold, hle⟩
  · intro recent hrecent id' hid' c hc hle
    obtain ⟨older, holder, rfl⟩ := Option.map_eq_some_iff.mp hrecent
    obtain rfl | hid' := List.mem_cons.mp hid'
    · -- the new post is above the cursor
      exfalso
      obtain hnone | ⟨c', hc', hbound⟩ := h.cursor
      · rw [hnone] at hc
        cases hc
      · rw [hc', Option.some.injEq] at hc
        rw [← intText_injective hc] at hle
        have hpos : (0 : Int) < id'.toInt := Int32.lt_iff_toInt_lt.mp hcovers
        obtain hzero | ⟨old, hold, hold'⟩ := hbound
        · have hzero : c'.toInt ≤ 0 := Int32.le_iff_toInt_le.mp hzero
          omega
        · have hlt := Int32.lt_iff_toInt_lt.mp (hnewer old hold)
          have hle' := Int32.le_iff_toInt_le.mp hold'
          omega
    · exact h.sound older holder id' hid' c hc hle

/-- Where the poll gets to write the cursor, the condition is on its page. -/
theorem covers_written {poll : Poll} {newest : Int32} (hcovers : Covers t channelKey w (.poll poll))
    (hsorted : w.posted.Pairwise fun a b => b < a) (hfirst : YieldsFirst w.posted poll.page)
    (hfound : poll.resolved = .found) (hwrites : poll.cursorFails = false)
    (hpage : (pollPage x t channelKey poll.errorFails 0 poll.page w.store).1 = .ok newest) :
    (∀ c : Int, cursorOf channelKey w.store = some (toString c) → c ≤ (newestId poll.page).toInt) ∧
      ∀ recent, w.recent = some recent → ∀ id ∈ recent, id ≤ newestId poll.page →
        Stored channelKey w.store id ∨ w.store.channelAllowlisted channelKey = true ∧ Fetches poll.page id := by
  obtain hunresolved | hfails | hcut | hcovers := hcovers
  · exact absurd hfound hunresolved
  · rw [hwrites] at hfails
    cases hfails
  · obtain ⟨e, he⟩ := pollPage_interrupted x 0 hfirst hsorted hcut
    rw [hpage] at he
    cases he
  · exact hcovers

theorem poll_tracked {poll : Poll} (h : Tracked channelKey w) (hstep : Step x t channelKey w (.poll poll) w')
    (hcovers : Covers t channelKey w (.poll poll)) :
    Tracked channelKey w' ∧ CursorLe (cursorOf channelKey w.store) (cursorOf channelKey w'.store) := by
  obtain ⟨hyields, hstore, hposted, hrecent, hrecent'⟩ := hstep
  have hfirst : YieldsFirst w.posted poll.page := yieldsFirst_take hyields _
  obtain ⟨hno, hcursor, hkeep⟩ | ⟨hyes, hwrites, newest, hpage, hcursor, hmessages⟩ :=
    pollChannel_cases x t channelKey poll w.store
  · rw [← hstore] at hcursor hkeep
    refine ⟨⟨hposted ▸ h.sorted, ?_, ?_⟩, ?_⟩
    · rw [hcursor, hposted]
      exact h.cursor
    · intro recent hr id hid c hc hle
      rw [hrecent' hno] at hr
      rw [hcursor] at hc
      exact hkeep id (h.sound recent hr id hid c hc hle)
    · rw [hcursor]
      exact cursorLe_refl h
  · rw [← hstore] at hcursor hmessages
    obtain rfl := pollPage_newest hfirst hpage
    obtain ⟨hlow, hcovered⟩ := covers_written hcovers h.sorted hfirst hyes.1 hwrites hpage
    refine ⟨⟨hposted ▸ h.sorted, ?_, ?_⟩, ?_⟩
    · refine Or.inr ⟨newestId poll.page, hcursor, ?_⟩
      obtain hzero | hmem := newest_mem hfirst 0
      · rw [newestId, hzero]
        exact Or.inl (Int32.le_refl _)
      · exact Or.inr ⟨_, hposted ▸ hmem, Int32.le_refl _⟩
    · intro recent hr id hid c hc hle
      rw [hcursor, Option.some.injEq] at hc
      rw [← intText_injective hc] at hle
      have hkept : ∀ id, Stored channelKey (pollPage x t channelKey poll.errorFails 0 poll.page w.store).2 id →
          Stored channelKey w'.store id := fun id => stored_mono fun k => Or.inl (congrFun hmessages k)
      cases hold : w.recent with
      | none =>
        rw [hrecent hyes, hold] at hr
        cases hr
        exact absurd hid List.not_mem_nil
      | some old =>
        rw [hrecent hyes, hold] at hr
        cases hr
        obtain hstored | ⟨hallow, hfetched⟩ := hcovered recent hold id hid (Int32.le_iff_toInt_le.mpr hle)
        · exact hkept id ((pollPage_keeps ..).2 id hstored)
        · exact hkept id (pollPage_ok hfirst hallow hpage id hfetched)
    · obtain hnone | ⟨c, hc, -⟩ := h.cursor
      · exact Or.inl hnone
      · exact Or.inr ⟨c.toInt, _, hc, hcursor, hlow c.toInt hc⟩

/-- One step keeps the promise of the cursor, and does not lower it. -/
theorem step_tracked (h : Tracked channelKey w) (hstep : Step x t channelKey w action w')
    (hcovers : Covers t channelKey w action) :
    Tracked channelKey w' ∧ CursorLe (cursorOf channelKey w.store) (cursorOf channelKey w'.store) := by
  cases action with
  | arrive id =>
    refine ⟨arrive_tracked h hstep hcovers, ?_⟩
    obtain ⟨-, rfl⟩ := hstep
    exact cursorLe_refl h
  | poll poll => exact poll_tracked h hstep hcovers

/-- The steps of a run that meet the condition. -/
def CoveredStep (x : Crates) (t : TextCrates) (channelKey : String) (w : World) (action : Action) (w' : World) : Prop :=
  Step x t channelKey w action w' ∧ Covers t channelKey w action

theorem run_tracked (h : Tracked channelKey w) (hrun : Run (CoveredStep x t channelKey) w actions w') :
    Tracked channelKey w' ∧ CursorLe (cursorOf channelKey w.store) (cursorOf channelKey w'.store) := by
  refine hrun.invariant (I := fun v => Tracked channelKey v ∧
    CursorLe (cursorOf channelKey w.store) (cursorOf channelKey v.store)) ⟨h, cursorLe_refl h⟩ ?_
  intro v action v' hv hstep
  obtain ⟨hnext, hle⟩ := step_tracked hv.1 hstep.1 hstep.2
  exact ⟨hnext, hv.2.trans hle⟩

/-- In every run from a channel that was not polled, as far as its steps meet the condition, the posts that the
    cursor has passed are stored, and the cursor does not fall from there on. -/
theorem cursor_sound (x : Crates) (t : TextCrates) (channelKey : String) {start w w' : World}
    {actions actions' : List Action} (hstart : Unpolled channelKey start)
    (hrun : Run (CoveredStep x t channelKey) start actions w)
    (hrest : Run (CoveredStep x t channelKey) w actions' w') :
    Sound channelKey w ∧ CursorLe (cursorOf channelKey w.store) (cursorOf channelKey w'.store) := by
  have hnew : Tracked channelKey start := by
    refine ⟨hstart.sorted, Or.inl hstart.cursor, ?_⟩
    intro recent hrecent
    rw [hstart.recent] at hrecent
    cases hrecent
  have htracked := (run_tracked hnew hrun).1
  exact ⟨htracked.sound, (run_tracked htracked hrest).2⟩

end

/-! ## A channel with three posts -/

def postOf (id : Int32) : Post where
  id
  editDate := none
  date := 0
  senderId := none
  postAuthor := none
  text := "gm"
  hasMedia := false

/-- A poll of a channel that resolves, without failures of the store. -/
def pollOf (limit : Nat) (nexts : List Next) : Poll where
  resolved := .found
  limit
  nexts
  errorFails := false
  cursorFails := false
  now := 0

def fetched (id : Int32) : Next := .message (postOf id) 0 noFaults

/-- The store after a poll of the channel. -/
def polled (poll : Poll) (s : PgMessageStore) : PgMessageStore :=
  (pollChannel (tableCrates [] [] []) latinCrates "chan" poll s).2

/-- One post, a poll, and then two more posts. -/
def threePosts : World where
  store := polled (pollOf 10 [fetched 1]) oneChannel
  posted := [3, 2, 1]
  recent := some [3, 2]

theorem threePosts_reached :
    Run (CoveredStep (tableCrates [] [] []) latinCrates "chan") ⟨oneChannel, [1], none⟩
      [.poll (pollOf 10 [fetched 1]), .arrive 2, .arrive 3] threePosts := by
  have hcovers : ∀ c : Int, cursorOf "chan" oneChannel = some (toString c) →
      c ≤ (newestId (pollOf 10 [fetched 1]).page).toInt := by
    intro c hc
    cases hc
  refine ⟨⟨polled (pollOf 10 [fetched 1]) oneChannel, [1], some []⟩, ⟨?_, Or.inr (Or.inr (Or.inr ⟨hcovers, ?_⟩))⟩,
    ⟨polled (pollOf 10 [fetched 1]) oneChannel, [2, 1], some [2]⟩, ⟨⟨?_, rfl⟩, ?_⟩,
    threePosts, ⟨⟨?_, rfl⟩, ?_⟩, rfl⟩
  · refine ⟨⟨[], rfl, rfl⟩, rfl, rfl, fun _ => rfl, fun hno => absurd ⟨rfl, 1, ?_⟩ hno⟩
    decide +kernel
  · intro recent hrecent
    cases hrecent
  · intro id hid
    rw [List.mem_singleton.mp hid]
    decide
  · show (0 : Int32) < 2
    decide
  · intro id hid
    obtain rfl | hid := List.mem_cons.mp hid
    · decide
    · rw [List.mem_singleton.mp hid]
      decide
  · show (0 : Int32) < 3
    decide

/-- A poll that reads back to the cursor keeps its promise. -/
theorem threePosts_sound : Sound "chan" threePosts ∧
    CursorLe (cursorOf "chan" threePosts.store) (cursorOf "chan" (polled (pollOf 10 [fetched 3, fetched 2, fetched 1])
      threePosts.store)) := by
  have hstart : Unpolled "chan" ⟨oneChannel, [1], none⟩ := ⟨rfl, rfl, List.pairwise_singleton _ _⟩
  have hstep : Step (tableCrates [] [] []) latinCrates "chan" threePosts
      (.poll (pollOf 10 [fetched 3, fetched 2, fetched 1]))
      ⟨polled (pollOf 10 [fetched 3, fetched 2, fetched 1]) threePosts.store, [3, 2, 1], some [3, 2]⟩ :=
    ⟨⟨_, rfl, _, rfl, _, rfl, rfl⟩, rfl, rfl, fun _ => rfl, fun _ => rfl⟩
  refine cursor_sound _ _ _ hstart threePosts_reached (run_singleton.mpr ⟨hstep, Or.inr (Or.inr (Or.inr ⟨?_, ?_⟩))⟩)
  · intro c hc
    have hone : cursorOf "chan" threePosts.store = some (toString (1 : Int)) := by decide +kernel
    rw [hone, Option.some.injEq] at hc
    rw [← intText_injective hc]
    decide +kernel
  · intro recent hrecent id hid _
    cases hrecent
    refine Or.inr ⟨by decide +kernel, postOf id, 0, noFaults, ?_, rfl, rfl, rfl⟩
    obtain rfl | hid := List.mem_cons.mp hid
    · exact List.mem_cons_self
    · rw [List.mem_singleton.mp hid]
      exact List.mem_cons_of_mem _ List.mem_cons_self

/-- A limit of one leaves a gap below the cursor, and a page that fails at once then lowers it to zero. -/
theorem threePosts_gap :
    let gap : World := ⟨polled (pollOf 1 [fetched 3, fetched 2, fetched 1]) threePosts.store, [3, 2, 1], some [3, 2]⟩
    Unpolled "chan" ⟨oneChannel, [1], none⟩ ∧
      Run (Step (tableCrates [] [] []) latinCrates "chan") ⟨oneChannel, [1], none⟩ [.poll (pollOf 10 [fetched 1]),
        .arrive 2, .arrive 3, .poll (pollOf 1 [fetched 3, fetched 2, fetched 1])] gap ∧
      ¬ Sound "chan" gap ∧
      ¬ CursorLe (cursorOf "chan" gap.store) (cursorOf "chan" (polled (pollOf 1 [.failed "timeout"]) gap.store)) := by
  intro gap
  have hthree : cursorOf "chan" gap.store = some (toString (3 : Int)) := by decide +kernel
  have hzero : cursorOf "chan" (polled (pollOf 1 [.failed "timeout"]) gap.store) = some (toString (0 : Int)) := by
    decide +kernel
  have hstep : Step (tableCrates [] [] []) latinCrates "chan" threePosts
      (.poll (pollOf 1 [fetched 3, fetched 2, fetched 1])) gap :=
    ⟨⟨_, rfl, _, rfl, _, rfl, rfl⟩, rfl, rfl, fun _ => rfl, fun _ => rfl⟩
  have hrun := threePosts_reached.mono fun _ _ _ h => h.1
  refine ⟨⟨rfl, rfl, List.pairwise_singleton _ _⟩, run_append.mpr ⟨threePosts, hrun, run_singleton.mpr hstep⟩,
    fun h => ?_, fun h => ?_⟩
  · have hstored := h [3, 2] rfl 2 (List.mem_cons_of_mem _ List.mem_cons_self) 3 hthree (by decide)
    -- neither poll had the post in its page
    have hpage : ∀ id : Int32, id ≠ 2 → ¬ ∃ post observedAt faults,
        Next.message post observedAt faults ∈ [fetched id] ∧ post.id = 2 := by
      intro id hne hmem
      obtain ⟨post, observedAt, faults, hmem, hid⟩ := hmem
      cases List.mem_singleton.mp hmem
      exact hne hid
    obtain hstored | hmem := stored_of_pollChannel hstored
    · obtain hstored | hmem := stored_of_pollChannel hstored
      · obtain ⟨version, hsome⟩ := hstored
        cases hsome
      · exact hpage 1 (by decide) hmem
    · exact hpage 3 (by decide) hmem
  · rw [hthree, hzero] at h
    obtain hnone | ⟨c, d, hc, hd, hle⟩ := h
    · cases hnone
    · rw [Option.some.injEq] at hc hd
      rw [← intText_injective hc, ← intText_injective hd] at hle
      exact absurd hle (by decide)

end WhaleIntelligence.Telegram
