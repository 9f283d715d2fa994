import WhaleIntelligence.Telegram.PollRuns

/- `telegram_poll_loop`: the states of the channels over its iterations.

   Three writes of a poll set the status: the handler of its error, the update behind a
   page, and the handler of the error that the poll itself returns. `visit_status` is the
   last of them. An error in a page is written first and then overwritten as `active`;
   one in the resolution stays. A status other than `active` is never selected again
   (`status_stays`), which is right for a disabled channel and wrong for one that was
   only to wait. -/
namespace WhaleIntelligence.Telegram
open WhaleIntelligence KeyedTable

/-- A round of `poll_all_channels`: the poll, what its error says if it returns one, and whether the store fails in the
    handler of that. -/
structure Visit where
  poll : Poll
  errorText : String
  handlerFails : Bool

/-- The poll of one channel in `poll_all_channels`; the first error ends the loop over the channels. -/
def visitChannel (x : Crates) (t : TextCrates) (channelKey : String) (v : Visit) (s : PgMessageStore) :
    Except (Abort Unit) Unit × PgMessageStore :=
  match pollChannel x t channelKey v.poll s with
  | (.ok _, s) => (.ok (), s)
  | (.error .panic, s) => (.error .panic, s)
  | (.error (.error ()), s) => handleChannelError v.handlerFails channelKey (classifyError t.toLowerCase v.errorText) s

def statusAt (channelKey : String) (s : PgMessageStore) : Option String := (s.channels channelKey).map ChannelRow.status

/-- What `telegram_poll_loop` selects. -/
def Selected (channelKey : String) (s : PgMessageStore) : Prop :=
  ∃ row, s.channels channelKey = some row ∧ row.allowlisted = true ∧ row.status = "active"

/-! ## The errors of a poll -/

/-- The error that ends a page. -/
def pageError : List Next → Option String
  | [] => none
  | .failed text :: _ => some text
  | .message .. :: rest => pageError rest

/-- The error that the poll meets in the channel. -/
def Poll.error (t : TextCrates) (poll : Poll) : Option TelegramError :=
  match poll.resolved with
  | .missing => some .channelNotFound
  | .failed text => some (classifyError t.toLowerCase text)
  | .found => (pageError poll.page).map (classifyError t.toLowerCase)

/-- The status that goes with an error. -/
def statusOf (error : Option TelegramError) : Option ChannelStatus := error.bind TelegramError.status

/-- The poll returns an error of the store. -/
def Poll.returnsError (t : TextCrates) (poll : Poll) : Bool :=
  (statusOf (poll.error t)).isSome && poll.errorFails || decide (poll.resolved = .found) && poll.cursorFails

/-- The error that the poll returns, as it is classified. -/
def Visit.storeError (t : TextCrates) (v : Visit) : Option TelegramError :=
  if v.poll.returnsError t then some (classifyError t.toLowerCase v.errorText) else none

/-- The error that the poll ended because of: the last one that has a status. -/
def Visit.ending (t : TextCrates) (v : Visit) : Option TelegramError :=
  ((v.storeError t).filter fun e => e.status.isSome).or (v.poll.error t)

/-- The status that the handler of an error leaves. -/
def written (error : Option TelegramError) (fails : Bool) (before : Option String) : Option String :=
  match statusOf error with
  | none => before
  | some status => if fails then before else some status.asStr

/-- Where the poll ends because of an error with a status, this status is the last that is written: by the handler of
    the error that the poll returns, or by that of the channel's error with no update behind it. Or the channel had it
    before and nothing is written. -/
def Visit.Sticks (t : TextCrates) (v : Visit) (before : Option String) : Prop :=
  ∀ status, statusOf (v.ending t) = some status →
    (statusOf (v.storeError t) = some status ∧ v.handlerFails = false) ∨
    (statusOf (v.poll.error t) = some status ∧ v.poll.errorFails = false ∧
      (v.poll.resolved ≠ .found ∨ v.poll.cursorFails = true)) ∨
    (before = some status.asStr ∧ (statusOf (v.poll.error t) = none ∨ v.poll.errorFails = true) ∧
      (v.poll.resolved ≠ .found ∨ v.poll.returnsError t = true))

section
variable {x : Crates} {t : TextCrates} {channelKey other : String} {s : PgMessageStore} {v : Visit} {fails : Bool}
  {error : TelegramError} {maxId : Int32} {page : List Next} {before : Option String}

/-! ## The writes of a poll -/

theorem statusAt_updateChannel (status : String) (cursor : Option String) (observedAt : Option DateTime) :
    statusAt channelKey (s.updateChannel channelKey status cursor observedAt) = some status := by
  simp only [statusAt, PgMessageStore.updateChannel, Table.upsert, set_self, Option.map_some]
  cases s.channels channelKey with
  | none => rfl
  | some row => rfl

theorem channels_updateChannel_ne (hne : other ≠ channelKey) (status : String) (cursor : Option String)
    (observedAt : Option DateTime) :
    (s.updateChannel channelKey status cursor observedAt).channels other = s.channels other :=
  set_ne _ hne _

/-- The handler of an error fails where it has a status to write and the store fails. -/
theorem handleChannelError_spec (error : TelegramError) : (handleChannelError fails channelKey error s).1 =
      (if error.status.isSome && fails then .error (.error ()) else .ok ()) ∧
    statusAt channelKey (handleChannelError fails channelKey error s).2 =
      written (some error) fails (statusAt channelKey s) := by
  rw [handleChannelError, written, statusOf, Option.bind_some]
  cases error.status with
  | none => exact ⟨rfl, rfl⟩
  | some status =>
    cases fails with
    | true => exact ⟨rfl, rfl⟩
    | false => exact ⟨rfl, statusAt_updateChannel _ _ _⟩

theorem handleChannelError_channels_ne (hne : other ≠ channelKey) (error : TelegramError) :
    (handleChannelError fails channelKey error s).2.channels other = s.channels other := by
  obtain ⟨-, hsame | ⟨status, hstatus⟩⟩ := handleChannelError_store (s := s)
  · rw [hsame]
  · rw [hstatus, channels_updateChannel_ne hne]

/-- A page that does not panic writes the status of its error, and returns an error where this fails. -/
theorem pollPage_status (hpanic : panicked (pollPage x t channelKey fails maxId page s).1 = false) :
    statusAt channelKey (pollPage x t channelKey fails maxId page s).2 =
        written ((pageError page).map (classifyError t.toLowerCase)) fails (statusAt channelKey s) ∧
      ∃ newest, (pollPage x t channelKey fails maxId page s).1 =
        if (statusOf ((pageError page).map (classifyError t.toLowerCase))).isSome && fails then .error (.error ())
        else .ok newest := by
  induction page generalizing maxId s with
  | nil => exact ⟨rfl, maxId, rfl⟩
  | cons next rest ih =>
    cases next with
    | failed text =>
      obtain ⟨hresult, hstatus⟩ := @handleChannelError_spec channelKey s fails (classifyError t.toLowerCase text)
      refine ⟨hstatus, maxId, ?_⟩
      rw [pollPage, hresult, pageError, Option.map_some, statusOf, Option.bind_some]
      split
      · rfl
      · rfl
    | message post observedAt faults =>
      have hsame : statusAt channelKey (ingestMessage x t faults (rawMessage channelKey post observedAt) s).2 =
          statusAt channelKey s := by
        rw [statusAt, ingestMessage_channels]
        rfl
      rw [pollPage] at hpanic ⊢
      split at hpanic
      · cases hpanic
      · rename_i hgo
        rw [if_neg hgo]
        obtain ⟨hstatus, hresult⟩ := ih hpanic
        rw [hsame] at hstatus
        exact ⟨hstatus, hresult⟩

theorem pollPage_channels_ne (hne : other ≠ channelKey) :
    (pollPage x t channelKey fails maxId page s).2.channels other = s.channels other := by
  induction page generalizing maxId s with
  | nil => rfl
  | cons next rest ih =>
    cases next with
    | failed text => exact handleChannelError_channels_ne hne _
    | message post observedAt faults =>
      rw [pollPage]
      split
      · rw [ingestMessage_channels]
      · rw [ih, ingestMessage_channels]

/-- The status behind a poll that does not panic, before its own error is handled. -/
def Poll.leaves (t : TextCrates) (poll : Poll) (before : Option String) : Option String :=
  if poll.resolved = .found ∧ poll.returnsError t = false then some ChannelStatus.active.asStr
  else written (poll.error t) poll.errorFails before

/-- Where the channel is not found, the handler of its error is all there is. -/
theorem unresolved_status {poll : Poll} (hne : poll.resolved ≠ .found) (herror : poll.error t = some error)
    (hpoll : pollChannel x t channelKey poll s =
      ((handleChannelError poll.errorFails channelKey error s).1.map fun _ => 0,
        (handleChannelError poll.errorFails channelKey error s).2)) :
    statusAt channelKey (pollChannel x t channelKey poll s).2 = poll.leaves t (statusAt channelKey s) ∧
      ∃ n, (pollChannel x t channelKey poll s).1 = if poll.returnsError t then .error (.error ()) else .ok n := by
  obtain ⟨hresult, hstatus⟩ := @handleChannelError_spec channelKey s poll.errorFails error
  have hreturns : poll.returnsError t = (error.status.isSome && poll.errorFails) := by
    simp [Poll.returnsError, herror, statusOf, hne]
  rw [hpoll, Poll.leaves, if_neg fun h => hne h.1, herror, hstatus, hresult, hreturns]
  refine ⟨rfl, 0, ?_⟩
  dsimp only
  split
  · rfl
  · rfl

/-- Where it is found, the page is worked off and, if this returns, the update comes behind it. -/
theorem found_status {poll : Poll} (hresolved : poll.resolved = .found)
    (hpanic : panicked (pollChannel x t channelKey poll s).1 = false) :
    statusAt channelKey (pollChannel x t channelKey poll s).2 = poll.leaves t (statusAt channelKey s) ∧
      ∃ n, (pollChannel x t channelKey poll s).1 = if poll.returnsError t then .error (.error ()) else .ok n := by
  have herror : poll.error t = (pageError poll.page).map (classifyError t.toLowerCase) := by
    rw [Poll.error, hresolved]
  obtain ⟨e, hpage, hpoll⟩ | ⟨newest, fetched, hpage, hpoll⟩ := pollChannel_found x t channelKey s hresolved
  · have he : e = .error () := by
      cases e with
      | error e => rfl
      | panic =>
        rw [hpoll] at hpanic
        cases hpanic
    obtain ⟨hstatus, n, hresult⟩ := pollPage_status (by rw [hpage, he]; rfl)
    rw [← herror] at hstatus hresult
    have hreturns : poll.returnsError t = true := by
      rw [hpage] at hresult
      split at hresult
      · rename_i hfails
        rw [Poll.returnsError, hfails, Bool.true_or]
      · cases hresult
    rw [hpoll, Poll.leaves, hreturns, if_neg (fun h => Bool.noConfusion h.2), he]
    exact ⟨hstatus, 0, rfl⟩
  · obtain ⟨hstatus, n, hresult⟩ := pollPage_status (by rw [hpage]; rfl)
    rw [← herror] at hstatus hresult
    have hreturns : poll.returnsError t = poll.cursorFails := by
      rw [hpage] at hresult
      split at hresult
      · cases hresult
      · rename_i hfails
        rw [Poll.returnsError, Bool.eq_false_iff.mpr hfails, hresolved]
        simp
    rw [hpoll, Poll.leaves, hreturns, hresolved]
    cases poll.cursorFails with
    | true => exact ⟨hstatus, 0, rfl⟩
    | false => exact ⟨statusAt_updateChannel _ _ _, fetched, rfl⟩

theorem pollChannel_status {poll : Poll} (hpanic : panicked (pollChannel x t channelKey poll s).1 = false) :
    statusAt channelKey (pollChannel x t channelKey poll s).2 = poll.leaves t (statusAt channelKey s) ∧
      ∃ n, (pollChannel x t channelKey poll s).1 = if poll.returnsError t then .error (.error ()) else .ok n := by
  cases hresolved : poll.resolved with
  | missing =>
    have hne : poll.resolved ≠ .found := by
      rw [hresolved]
      exact fun h => by cases h
    refine @unresolved_status _ _ _ _ .channelNotFound _ hne ?_ ?_
    · rw [Poll.error, hresolved]
    · rw [pollChannel, hresolved]
  | failed text =>
    have hne : poll.resolved ≠ .found := by
      rw [hresolved]
      exact fun h => by cases h
    refine @unresolved_status _ _ _ _ (classifyError t.toLowerCase text) _ hne ?_ ?_
    · rw [Poll.error, hresolved]
    · rw [pollChannel, hresolved]
  | found => exact found_status hresolved hpanic

/-- The status behind a visit that does not panic. -/
theorem visit_status (hpanic : panicked (visitChannel x t channelKey v s).1 = false) :
    statusAt channelKey (visitChannel x t channelKey v s).2 =
      written (v.storeError t) v.handlerFails (v.poll.leaves t (statusAt channelKey s)) := by
  obtain ⟨r, hr⟩ : ∃ r, pollChannel x t channelKey v.poll s = r := ⟨_, rfl⟩
  have hpoll : panicked (pollChannel x t channelKey v.poll s).1 = false := by
    rw [visitChannel] at hpanic
    split at hpanic
    · rename_i heq
      rw [heq]
      rfl
    · cases hpanic
    · rename_i heq
      rw [heq]
      rfl
  obtain ⟨hstatus, n, hresult⟩ := pollChannel_status hpoll
  rw [hr] at hstatus hresult
  obtain ⟨result, store⟩ := r
  rw [visitChannel, hr, Visit.storeError, ← hstatus]
  dsimp only at hresult
  rw [hresult]
  cases v.poll.returnsError t with
  | true =>
    rw [if_pos rfl, if_pos rfl]
    exact (handleChannelError_spec _).2
  | false => rfl

theorem visit_channels_ne (hne : other ≠ channelKey) :
    (visitChannel x t channelKey v s).2.channels other = s.channels other := by
  have hpoll : (pollChannel x t channelKey v.poll s).2.channels other = s.channels other := by
    cases hresolved : v.poll.resolved with
    | missing =>
      rw [pollChannel, hresolved]
      exact handleChannelError_channels_ne hne _
    | failed text =>
      rw [pollChannel, hresolved]
      exact handleChannelError_channels_ne hne _
    | found =>
      have hpage := @pollPage_channels_ne x t channelKey other s v.poll.errorFails 0 v.poll.page hne
      obtain ⟨e, -, hpoll⟩ | ⟨newest, fetched, -, hpoll⟩ := pollChannel_found x t channelKey s hresolved
      · rw [hpoll, hpage]
      · rw [hpoll]
        split
        · exact hpage
        · rw [channels_updateChannel_ne hne, hpage]
  rw [visitChannel]
  split
  · rename_i heq
    rw [← hpoll, heq]
  · rename_i heq
    rw [← hpoll, heq]
  · rename_i heq
    rw [handleChannelError_channels_ne hne, ← hpoll, heq]

theorem channelStatus_injective {a b : ChannelStatus} (h : a.asStr = b.asStr) : a = b := by
  cases a <;> cases b <;> first | rfl | exact absurd h (by decide)

/-- No error writes `active`. -/
theorem statusOf_ne_active {error : Option TelegramError} {status : ChannelStatus} (h : statusOf error = some status) :
    status ≠ .active := by
  obtain ⟨e, -, he⟩ := Option.bind_eq_some_iff.mp h
  rintro rfl
  cases e <;> cases he

theorem statusOf_ending (t : TextCrates) (v : Visit) :
    statusOf (v.ending t) = (statusOf (v.storeError t)).or (statusOf (v.poll.error t)) := by
  rw [Visit.ending]
  cases v.storeError t with
  | none => rfl
  | some e =>
    rw [Option.filter_some]
    cases hstatus : e.status with
    | none => simp [statusOf, hstatus]
    | some status => simp [statusOf, hstatus]

/-- Where no update comes behind it, the handler of the channel's error leaves the status if it writes it, or else if
    the status was there before. -/
theorem written_iff {status : ChannelStatus} (hlast : v.poll.resolved ≠ .found ∨ v.poll.returnsError t = true) :
    written (v.poll.error t) v.poll.errorFails before = some status.asStr ↔
      (statusOf (v.poll.error t) = some status ∧ v.poll.errorFails = false ∧
        (v.poll.resolved ≠ .found ∨ v.poll.cursorFails = true)) ∨
      (before = some status.asStr ∧ (statusOf (v.poll.error t) = none ∨ v.poll.errorFails = true) ∧
        (v.poll.resolved ≠ .found ∨ v.poll.returnsError t = true)) := by
  rw [written]
  cases herror : statusOf (v.poll.error t) with
  | none => simp [hlast]
  | some first =>
    cases hfails : v.poll.errorFails with
    | true => simp [hlast]
    | false =>
      -- the poll returns an error only if its last update fails
      have hupdate : v.poll.resolved ≠ .found ∨ v.poll.cursorFails = true := by
        refine hlast.imp_right fun hreturns => ?_
        rw [Poll.returnsError, hfails, Bool.and_false, Bool.false_or, Bool.and_eq_true] at hreturns
        exact hreturns.2
      have hinj : first.asStr = status.asStr ↔ first = status := ⟨channelStatus_injective, congrArg _⟩
      simp [hupdate, hinj]

/-- Right behind the poll the status is that of its error exactly where it sticks. -/
theorem visit_sticks_iff (hpanic : panicked (visitChannel x t channelKey v s).1 = false) :
    (∀ status, statusOf (v.ending t) = some status →
        statusAt channelKey (visitChannel x t channelKey v s).2 = some status.asStr) ↔
      v.Sticks t (statusAt channelKey s) := by
  rw [visit_status hpanic]
  refine forall₂_congr fun status hending => ?_
  rw [statusOf_ending] at hending
  cases hstore : statusOf (v.storeError t) with
  | some last =>
    rw [hstore, Option.some_or] at hending
    have hreturns : v.poll.returnsError t = true := by
      by_contra hno
      rw [Visit.storeError, if_neg hno] at hstore
      cases hstore
    rw [hending, written, hstore, hending]
    cases v.handlerFails with
    | true =>
      have hleaves : v.poll.leaves t (statusAt channelKey s) = _ :=
        if_neg fun h => Bool.noConfusion (hreturns.symm.trans h.2)
      rw [hleaves]
      simpa using written_iff (Or.inr hreturns)
    | false => simp
  | none =>
    rw [hstore, Option.none_or] at hending
    rw [written, hstore, Poll.leaves]
    by_cases hupdated : v.poll.resolved = .found ∧ v.poll.returnsError t = false
    · -- the update behind the page overwrites the status
      obtain ⟨hfound, hreturns⟩ := hupdated
      have hcursor : v.poll.cursorFails = false := by
        rw [Poll.returnsError, Bool.or_eq_false_iff, hfound] at hreturns
        simpa using hreturns.2
      have hne : ChannelStatus.active.asStr ≠ status.asStr := by
        intro h
        exact statusOf_ne_active hending (channelStatus_injective h).symm
      rw [if_pos ⟨hfound, hreturns⟩]
      simp [hfound, hreturns, hcursor, hne]
    · rw [if_neg hupdated]
      rw [not_and_or, Bool.not_eq_false] at hupdated
      simpa using written_iff hupdated

end

end WhaleIntelligence.Telegram
