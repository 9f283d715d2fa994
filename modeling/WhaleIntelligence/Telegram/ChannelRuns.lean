import Mathlib.Data.Nat.Find
import WhaleIntelligence.Telegram.ChannelStates

/- Runs of `telegram_poll_loop`.

   An iteration selects the active channels and polls one after the other; rows change
   from outside at any time. The wait of a flood wait is kept nowhere, and no step of the
   loop takes a channel out of another status than `active` (`status_stays`). So the
   states stick exactly where every poll's own does, and every channel in a flood wait is
   made active from outside before an iteration that selects (`channel_states_iff`). -/
namespace WhaleIntelligence.Telegram
open WhaleIntelligence KeyedTable

structure Poller where
  store : PgMessageStore
  /-- The channels of the iteration that are still to be polled. -/
  waiting : List String
  /-- No poll has panicked. -/
  running : Bool

inductive PollerEvent
  /-- An iteration starts with the channels it has selected. -/
  | select (keys : List String)
  | poll (channelKey : String) (v : Visit)
  /-- A row is changed or deleted from outside. -/
  | outside (channelKey : String) (row : Option ChannelRow)
  | idle

/-- A step of the loop, or of the world around it. A selection that fails is empty. -/
inductive PollerStep (x : Crates) (t : TextCrates) : Poller → PollerEvent → Poller → Prop
  | select {p : Poller} {keys : List String} (hrunning : p.running = true) (hdone : p.waiting = [])
      (hkeys : keys = [] ∨ keys.Nodup ∧ ∀ k, k ∈ keys ↔ Selected k p.store) :
      PollerStep x t p (.select keys) { p with waiting := keys }
  | poll {p : Poller} {channelKey : String} {rest : List String} {v : Visit} (hrunning : p.running = true)
      (hnext : p.waiting = channelKey :: rest) :
      PollerStep x t p (.poll channelKey v) {
        store := (visitChannel x t channelKey v p.store).2
        waiting := match (visitChannel x t channelKey v p.store).1 with
          | .ok _ => rest
          | .error _ => []
        running := !panicked (visitChannel x t channelKey v p.store).1 }
  | outside {p : Poller} {channelKey : String} {row : Option ChannelRow} :
      PollerStep x t p (.outside channelKey row)
        { p with store := { p.store with channels := p.store.channels.set channelKey row } }
  | idle {p : Poller} : PollerStep x t p .idle p

/-- The loop from its start on, with the time of each event in seconds. -/
structure PollerRun (x : Crates) (t : TextCrates) where
  state : Nat → Poller
  event : Nat → PollerEvent
  time : Nat → Int
  start : (state 0).waiting = []
  step : ∀ i, PollerStep x t (state i) (event i) (state (i + 1))

section
variable {x : Crates} {t : TextCrates} (run : PollerRun x t)

/-- The poll ends at the event without a panic. -/
def PollerRun.Polls (i : Nat) (channelKey : String) (v : Visit) : Prop :=
  run.event i = .poll channelKey v ∧ (run.state (i + 1)).running = true

/-- The row is changed from outside at the event. -/
def PollerRun.Changes (i : Nat) (channelKey : String) : Prop := ∃ row, run.event i = .outside channelKey row

/-- The iteration that starts at the event selects the channel. -/
def PollerRun.Selects (i : Nat) (channelKey : String) : Prop := ∃ keys, run.event i = .select keys ∧ channelKey ∈ keys

/-- Right behind a poll that ended because of an error, the status is that of the error. -/
def PollerRun.Sticks : Prop :=
  ∀ i channelKey v, run.Polls i channelKey v → ∀ status, statusOf (v.ending t) = some status →
    statusAt channelKey (run.state (i + 1)).store = some status.asStr

/-- A channel that is disabled or without authorization, and not selected already, is not selected and not polled until
    its row is changed from outside. -/
def PollerRun.Disables : Prop :=
  ∀ i channelKey status, status = ChannelStatus.authFailed ∨ status = ChannelStatus.disabled →
    statusAt channelKey (run.state i).store = some status.asStr → channelKey ∉ (run.state i).waiting →
      ∀ j, i ≤ j → (∀ m, i ≤ m → m < j → ¬ run.Changes m channelKey) →
        ¬ run.Selects j channelKey ∧ ∀ v, run.event j ≠ .poll channelKey v

/-- A channel that a poll has put into a flood wait is not polled before its end, as long as it is in it, and it is
    selected again by a later iteration. -/
def PollerRun.Waits : Prop :=
  ∀ i channelKey v seconds, run.Polls i channelKey v → v.ending t = some (.floodWait seconds) →
    statusAt channelKey (run.state (i + 1)).store = some ChannelStatus.floodWait.asStr →
      (∀ j, i < j →
        (∀ m, i < m → m ≤ j → statusAt channelKey (run.state m).store = some ChannelStatus.floodWait.asStr) →
        (∃ v', run.event j = .poll channelKey v') → run.time i + seconds ≤ run.time j) ∧
      ∃ j, i < j ∧ run.Selects j channelKey

/-- Behind the event the row is made one of an allowlisted, active channel from outside, and an iteration selects, and
    not in vain, before the row is changed from outside again. -/
def PollerRun.Reactivated (i : Nat) (channelKey : String) : Prop :=
  ∃ m j row keys, i < m ∧ m < j ∧ run.event m = .outside channelKey (some row) ∧ row.allowlisted = true ∧
    row.status = "active" ∧ (∀ l, m < l → l < j → ¬ run.Changes l channelKey) ∧ run.event j = .select keys ∧ keys ≠ []

variable {run} {channelKey : String} {p p' : Poller} {e : PollerEvent}

theorem waiting_nodup (run : PollerRun x t) (i : Nat) : (run.state i).waiting.Nodup := by
  induction i with
  | zero =>
    rw [run.start]
    exact List.nodup_nil
  | succ i ih =>
    have hstep := run.step i
    generalize run.state i = p, run.event i = e, run.state (i + 1) = p' at hstep ih
    cases hstep with
    | select hrunning hdone hkeys =>
      obtain rfl | ⟨hnodup, -⟩ := hkeys
      · exact List.nodup_nil
      · exact hnodup
    | poll hrunning hnext =>
      rw [hnext, List.nodup_cons] at ih
      dsimp only
      split
      · exact ih.2
      · exact List.nodup_nil
    | outside => exact ih
    | idle => exact ih

/-- What an iteration selects, unless the selection fails. -/
theorem select_mem {keys : List String} (hstep : PollerStep x t p (.select keys) p') :
    (channelKey ∈ keys → Selected channelKey p.store) ∧
      (keys ≠ [] → Selected channelKey p.store → channelKey ∈ keys) := by
  cases hstep with
  | select hrunning hdone hkeys =>
    obtain rfl | ⟨-, hmem⟩ := hkeys
    · exact ⟨fun h => absurd h List.not_mem_nil, fun h => absurd rfl h⟩
    · exact ⟨(hmem channelKey).mp, fun _ => (hmem channelKey).mpr⟩

/-- A step that does not select a channel that does not wait does not poll it either, and only a change from outside
    touches its row. -/
theorem unselected_step (hstep : PollerStep x t p e p') (hout : channelKey ∉ p.waiting)
    (hselect : ∀ keys, e = .select keys → channelKey ∉ keys) :
    channelKey ∉ p'.waiting ∧ (∀ v, e ≠ .poll channelKey v) ∧
      ((∀ row, e ≠ .outside channelKey row) → p'.store.channels channelKey = p.store.channels channelKey) := by
  cases hstep with
  | select hrunning hdone hkeys => exact ⟨hselect _ rfl, fun v heq => (by cases heq), fun _ => rfl⟩
  | @poll polled rest v hrunning hnext =>
    rw [hnext, List.mem_cons, not_or] at hout
    refine ⟨?_, fun v heq => ?_, fun _ => visit_channels_ne hout.1⟩
    · dsimp only
      split
      · exact hout.2
      · exact List.not_mem_nil
    · cases heq
      exact hout.1 rfl
  | @outside changed row =>
    refine ⟨hout, fun v heq => (by cases heq), fun hchange => ?_⟩
    have hother : channelKey ≠ changed := by
      rintro rfl
      exact hchange row rfl
    exact set_ne _ hother _
  | idle => exact ⟨hout, fun v heq => (by cases heq), fun _ => rfl⟩

theorem outside_row {row : Option ChannelRow} (hstep : PollerStep x t p (.outside channelKey row) p') :
    p'.store.channels channelKey = row := by
  cases hstep with
  | outside => exact set_self _ _ _

/-- A channel in another status than `active` is not selected. -/
theorem unselected_status {status : String} (hne : status ≠ "active")
    (hstatus : statusAt channelKey p.store = some status) (hstep : PollerStep x t p e p') :
    ∀ keys, e = .select keys → channelKey ∉ keys := by
  rintro keys rfl hmem
  obtain ⟨row, hrow, -, hactive⟩ := (select_mem hstep).1 hmem
  rw [statusAt, hrow, Option.map_some, Option.some.injEq, hactive] at hstatus
  exact hne hstatus.symm

/-- A channel that does not wait and is not selected does not come to wait. -/
theorem unselected_run (run : PollerRun x t) {i j : Nat} (hout : channelKey ∉ (run.state i).waiting) (hle : i ≤ j)
    (hselect : ∀ m, i ≤ m → m < j → ¬ run.Selects m channelKey) : channelKey ∉ (run.state j).waiting := by
  induction j, hle using Nat.le_induction with
  | base => exact hout
  | succ j hle ih =>
    have hbefore := ih fun m hm hlt => hselect m hm (Nat.lt_succ_of_lt hlt)
    exact (unselected_step (run.step j) hbefore fun keys heq hmem =>
      hselect j hle (Nat.lt_succ_self j) ⟨keys, heq, hmem⟩).1

/-- And without a change from outside its row stays. -/
theorem row_run (run : PollerRun x t) {i j : Nat} (hout : channelKey ∉ (run.state i).waiting) (hle : i ≤ j)
    (hselect : ∀ m, i ≤ m → m < j → ¬ run.Selects m channelKey)
    (hchange : ∀ m, i ≤ m → m < j → ¬ run.Changes m channelKey) :
    (run.state j).store.channels channelKey = (run.state i).store.channels channelKey := by
  induction j, hle using Nat.le_induction with
  | base => rfl
  | succ j hle ih =>
    have hbefore := unselected_run run hout hle fun m hm hlt => hselect m hm (Nat.lt_succ_of_lt hlt)
    have hrow := ih (fun m hm hlt => hselect m hm (Nat.lt_succ_of_lt hlt)) fun m hm hlt =>
      hchange m hm (Nat.lt_succ_of_lt hlt)
    rw [← hrow]
    exact (unselected_step (run.step j) hbefore fun keys heq hmem =>
      hselect j hle (Nat.lt_succ_self j) ⟨keys, heq, hmem⟩).2.2 fun row heq =>
        hchange j hle (Nat.lt_succ_self j) ⟨row, heq⟩

/-- Until its row is changed from outside, such a channel keeps its status and is neither selected nor polled. -/
theorem status_stays (run : PollerRun x t) {i j : Nat} {status : String} (hne : status ≠ "active")
    (hstatus : statusAt channelKey (run.state i).store = some status) (hout : channelKey ∉ (run.state i).waiting)
    (hle : i ≤ j) (hchange : ∀ m, i ≤ m → m < j → ¬ run.Changes m channelKey) :
    statusAt channelKey (run.state j).store = some status ∧ channelKey ∉ (run.state j).waiting := by
  induction j, hle using Nat.le_induction with
  | base => exact ⟨hstatus, hout⟩
  | succ j hle ih =>
    obtain ⟨hstatus', hout'⟩ := ih fun m hm hlt => hchange m hm (Nat.lt_succ_of_lt hlt)
    obtain ⟨hwaiting, -, hrow⟩ := unselected_step (run.step j) hout' (unselected_status hne hstatus' (run.step j))
    rw [statusAt, hrow fun row heq => hchange j hle (Nat.lt_succ_self j) ⟨row, heq⟩]
    exact ⟨hstatus', hwaiting⟩

/-- Nor does the event that changes the row select or poll it. -/
theorem untouched (run : PollerRun x t) {i j : Nat} {status : String} (hne : status ≠ "active")
    (hstatus : statusAt channelKey (run.state i).store = some status) (hout : channelKey ∉ (run.state i).waiting)
    (hle : i ≤ j) (hchange : ∀ m, i ≤ m → m < j → ¬ run.Changes m channelKey) :
    ¬ run.Selects j channelKey ∧ ∀ v, run.event j ≠ .poll channelKey v := by
  obtain ⟨hstatus', hout'⟩ := status_stays run hne hstatus hout hle hchange
  have hselect := unselected_status hne hstatus' (run.step j)
  refine ⟨?_, (unselected_step (run.step j) hout' hselect).2.1⟩
  rintro ⟨keys, hkeys, hmem⟩
  exact hselect keys hkeys hmem

/-- A channel that has just been polled does not wait. -/
theorem polled_out {i : Nat} {v : Visit} (h : run.Polls i channelKey v) :
    channelKey ∉ (run.state (i + 1)).waiting ∧ panicked (visitChannel x t channelKey v (run.state i).store).1 = false ∧
      (run.state (i + 1)).store = (visitChannel x t channelKey v (run.state i).store).2 := by
  obtain ⟨hevent, hrunning⟩ := h
  have hnodup := waiting_nodup run i
  have hstep := run.step i
  rw [hevent] at hstep
  generalize run.state i = p, run.state (i + 1) = p' at hstep hnodup hrunning ⊢
  cases hstep with
  | poll hgoes hnext =>
    rw [hnext, List.nodup_cons] at hnodup
    refine ⟨?_, by simpa using hrunning, rfl⟩
    dsimp only
    split
    · exact hnodup.1
    · exact List.not_mem_nil

/-! ## The end of a flood wait -/

theorem exists_last {P : Nat → Prop} {i j : Nat} (h : ∃ m, i < m ∧ m < j ∧ P m) :
    ∃ m, i < m ∧ m < j ∧ P m ∧ ∀ l, m < l → l < j → ¬ P l := by
  induction j with
  | zero =>
    obtain ⟨m, -, hlt, -⟩ := h
    cases hlt
  | succ j ih =>
    by_cases hlast : i < j ∧ P j
    · exact ⟨j, hlast.1, Nat.lt_succ_self j, hlast.2, fun l hjl hlj => absurd hlj (by omega)⟩
    · obtain ⟨m, him, hmj, hm⟩ := h
      have hbefore : m < j := by
        refine Nat.lt_of_le_of_ne (Nat.le_of_lt_succ hmj) ?_
        rintro rfl
        exact hlast ⟨him, hm⟩
      obtain ⟨m, him, hmj, hm, hafter⟩ := ih ⟨m, him, hbefore, hm⟩
      refine ⟨m, him, Nat.lt_succ_of_lt hmj, hm, fun l hml hlj hl => ?_⟩
      rcases Nat.lt_succ_iff_lt_or_eq.mp hlj with hlj | rfl
      · exact hafter l hml hlj hl
      · exact hlast ⟨Nat.lt_trans him hml, hl⟩

/-- A channel that is in a flood wait all the time is not polled. -/
theorem flooded_unpolled (run : PollerRun x t) {i j : Nat} (hout : channelKey ∉ (run.state i).waiting) (hle : i ≤ j)
    (hflooded : ∀ m, i ≤ m → m ≤ j →
      statusAt channelKey (run.state m).store = some ChannelStatus.floodWait.asStr) (v : Visit) :
    run.event j ≠ .poll channelKey v := by
  have hselect : ∀ m, i ≤ m → m ≤ j → ∀ keys, run.event m = .select keys → channelKey ∉ keys := fun m hm hmj =>
    unselected_status (show ChannelStatus.floodWait.asStr ≠ "active" by decide) (hflooded m hm hmj) (run.step m)
  have hout' := unselected_run run hout hle fun m hm hlt h => by
    obtain ⟨keys, hkeys, hmem⟩ := h
    exact hselect m hm (Nat.le_of_lt hlt) keys hkeys hmem
  exact (unselected_step (run.step j) hout' (hselect j hle (Nat.le_refl j))).2.1 v

/-- A channel that is set active from outside is selected by the next iteration that does not select in vain, if it was
    not before. -/
theorem selects_of_reactivated {i : Nat} (hout : channelKey ∉ (run.state (i + 1)).waiting)
    (h : run.Reactivated i channelKey) : ∃ j, i < j ∧ run.Selects j channelKey := by
  obtain ⟨m, j, row, keys, him, hmj, hevent, hallowlisted, hactive, hchange, hselect, hne⟩ := h
  by_cases hearlier : ∃ l, i < l ∧ l < j ∧ run.Selects l channelKey
  · obtain ⟨l, hil, -, hselects⟩ := hearlier
    exact ⟨l, hil, hselects⟩
  · have hunselected : ∀ l, i + 1 ≤ l → l < j → ¬ run.Selects l channelKey := fun l hil hlj hselects =>
      hearlier ⟨l, hil, hlj, hselects⟩
    have hout' := unselected_run run hout (Nat.le_succ_of_le him) fun l hil hlm =>
      hunselected l hil (Nat.lt_of_le_of_lt (Nat.le_of_lt_succ hlm) hmj)
    have hset : (run.state (m + 1)).store.channels channelKey = some row := outside_row (hevent ▸ run.step m)
    have hrow := row_run run hout' hmj (fun l hml => hunselected l (Nat.le_trans (Nat.le_succ_of_le him) hml)) hchange
    have hstep := run.step j
    rw [hselect] at hstep
    exact ⟨j, Nat.lt_trans him hmj, keys, hselect,
      (select_mem hstep).2 hne ⟨row, hrow.trans hset, hallowlisted, hactive⟩⟩

/-- A channel in a flood wait is selected only behind a change that makes it active. -/
theorem reactivated_of_selects {i j : Nat} {status : String} (hne : status ≠ "active")
    (hstatus : statusAt channelKey (run.state (i + 1)).store = some status)
    (hout : channelKey ∉ (run.state (i + 1)).waiting) (hlt : i < j) (hselects : run.Selects j channelKey) :
    run.Reactivated i channelKey := by
  classical
  have hlater : ∃ j, i < j ∧ run.Selects j channelKey := ⟨j, hlt, hselects⟩
  obtain ⟨j, ⟨hij, keys, hkeys, hmem⟩, hfirst⟩ : ∃ j, (i < j ∧ run.Selects j channelKey) ∧
      ∀ l < j, ¬ (i < l ∧ run.Selects l channelKey) :=
    ⟨Nat.find hlater, Nat.find_spec hlater, fun l => Nat.find_min hlater⟩
  have hunselected : ∀ l, i + 1 ≤ l → l < j → ¬ run.Selects l channelKey := fun l hil hlj h => hfirst l hlj ⟨hil, h⟩
  have hstep := run.step j
  rw [hkeys] at hstep
  obtain ⟨row, hrow, hallowlisted, hactive⟩ := (select_mem hstep).1 hmem
  have hchanged : ∃ m, i < m ∧ m < j ∧ run.Changes m channelKey := by
    by_contra hnone
    have hsame := row_run run hout hij hunselected fun m him hmj hchange => hnone ⟨m, him, hmj, hchange⟩
    rw [statusAt, ← hsame, hrow, Option.map_some, Option.some.injEq, hactive] at hstatus
    exact hne hstatus.symm
  obtain ⟨m, him, hmj, ⟨changed, hevent⟩, hlast⟩ := exists_last hchanged
  have hout' := unselected_run run hout (Nat.le_succ_of_le him) fun l hil hlm =>
    hunselected l hil (Nat.lt_of_le_of_lt (Nat.le_of_lt_succ hlm) hmj)
  have hset : (run.state (m + 1)).store.channels channelKey = changed := outside_row (hevent ▸ run.step m)
  have hsame := row_run run hout' hmj (fun l hml => hunselected l (Nat.le_trans (Nat.le_succ_of_le him) hml)) hlast
  obtain rfl : changed = some row := hset.symm.trans (hsame.symm.trans hrow)
  exact ⟨m, j, row, keys, him, hmj, hevent, hallowlisted, hactive, hlast, hkeys, List.ne_nil_of_mem hmem⟩

end

/-- The first message of the page meets a flood wait. -/
def floodedPage : Visit where
  poll := ⟨.found, 10, [.failed "FLOOD_WAIT_30"], false, false, 0⟩
  errorText := ""
  handlerFails := false

/-- The resolution of the channel meets a flood wait. -/
def floodedChannel : Visit := { floodedPage with poll := { floodedPage.poll with resolved := .failed "FLOOD_WAIT_30" } }

/-- One iteration over one channel, and no other event. -/
def oneVisit (x : Crates) (t : TextCrates) (v : Visit) (h : (visitChannel x t "chan" v oneChannel).1 = .ok ()) :
    PollerRun x t where
  state i := match i with
    | 0 => ⟨oneChannel, [], true⟩
    | 1 => ⟨oneChannel, ["chan"], true⟩
    | _ => ⟨(visitChannel x t "chan" v oneChannel).2, [], true⟩
  event i := match i with
    | 0 => .select ["chan"]
    | 1 => .poll "chan" v
    | _ => .idle
  time i := i
  start := rfl
  step i := match i with
    | 0 => by
      refine .select rfl rfl (Or.inr ⟨List.nodup_singleton _, fun k => ?_⟩)
      rw [List.mem_singleton, Selected, oneChannel]
      by_cases hk : k = "chan"
      · simp [hk]
      · simp [hk]
    | 1 => by
      have hstep := PollerStep.poll (x := x) (t := t) (p := ⟨oneChannel, ["chan"], true⟩) (v := v) rfl rfl
      rw [h] at hstep
      exact hstep
    | _ + 2 => .idle

end WhaleIntelligence.Telegram
