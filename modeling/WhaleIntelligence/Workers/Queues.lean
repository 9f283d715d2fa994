import Mathlib.Data.List.AList
import WhaleIntelligence.Admin.Access

/- Backpressure: the queues in their precedence, and the two places that pause them.

   Under pressure the process pauses queues of its own from the bottom of the precedence
   upwards, and an operator pauses one by name in the database. In any run of both, the
   queues that pressure has paused are the lowest ones, as many as the greatest target
   since they were last resumed (`isPaused_after`), and a worker runs just where neither
   has stopped its queue and the database could be read (`queueAllowed_iff`). -/
namespace WhaleIntelligence.Queues
open WhaleIntelligence KeyedTable Episodes Auth

/-! ## The precedence -/

def QUEUE_LIVE_WATCH : String := "live_watch"
def QUEUE_FUNDING_RADAR : String := "funding_radar"
def QUEUE_TELEGRAM_INGEST : String := "telegram_ingest"
def QUEUE_SEED_SYNC : String := "seed_sync"
def QUEUE_HISTORICAL_BACKFILL : String := "historical_backfill"
def QUEUE_SIGNAL_EVAL : String := "signal_eval"

/-- The highest first. -/
def ALL_QUEUES : List String :=
  [QUEUE_LIVE_WATCH, QUEUE_FUNDING_RADAR, QUEUE_TELEGRAM_INGEST, QUEUE_SEED_SYNC, QUEUE_HISTORICAL_BACKFILL,
    QUEUE_SIGNAL_EVAL]

/-! ## The state of the process -/

structure QueueState where
  paused : AList fun _ : String => Bool
  lagSeconds : AList fun _ : String => Nat

namespace QueueState

def new : QueueState := ⟨∅, ∅⟩

def isPaused (s : QueueState) (queue : String) : Bool := (s.paused.lookup queue).getD false

def setPaused (s : QueueState) (queue : String) (paused : Bool) : QueueState :=
  { s with paused := s.paused.insert queue paused }

def setLag (s : QueueState) (queue : String) (seconds : Nat) : QueueState :=
  { s with lagSeconds := s.lagSeconds.insert queue seconds }

def pausedCount (s : QueueState) : Nat := s.paused.entries.countP (·.2)

/-- The loop over the queues, with the count that it keeps. -/
def pauseLoop (targetPaused : Nat) : List String → Nat → QueueState → QueueState
  | [], _, s => s
  | queue :: queues, pausedCount, s =>
    if pausedCount ≥ targetPaused then s
    else if queue == QUEUE_LIVE_WATCH then pauseLoop targetPaused queues pausedCount s
    else if !s.isPaused queue then pauseLoop targetPaused queues (pausedCount + 1) (s.setPaused queue true)
    else pauseLoop targetPaused queues pausedCount s

def pauseBottomUp (s : QueueState) (targetPaused : Nat) : QueueState :=
  pauseLoop targetPaused ALL_QUEUES.reverse s.pausedCount s

def resumeAll (s : QueueState) : QueueState := ALL_QUEUES.foldl (fun s queue => s.setPaused queue false) s

def backfillAllowed (s : QueueState) (pauseLagSeconds : Nat) : Bool :=
  let lag := (s.lagSeconds.lookup QUEUE_HISTORICAL_BACKFILL).getD 0
  !s.isPaused QUEUE_HISTORICAL_BACKFILL && lag < pauseLagSeconds

end QueueState

/-! ## The state in the database -/

/-- A row of `queue_state`. -/
structure QueueRow where
  paused : Bool
  lagSeconds : Int
  updatedAt : DateTime
  updatedBy : String
  deriving DecidableEq, Repr

abbrev QueueTable := Table String QueueRow

/-- What an operator asks for, the session store that the request finds, and whether the write fails. -/
structure PauseRequest extends Request where
  sessions : SessionStore
  name : String
  paused : Bool
  writeFault : Bool

/-- What `set_queue_pause` answers, and the table after it. -/
def setQueuePause (tokenHash : String → String) (table : QueueTable) (r : PauseRequest) :
    Except Refused (String × Bool) × QueueTable :=
  match requireWriteAuth tokenHash r.toRequest r.sessions with
  | .error e => (.error e, table)
  | .ok () =>
    if !ALL_QUEUES.contains r.name then (.error .notFound, table)
    else if r.writeFault then (.error .internalServerError, table)
    else (.ok (r.name, r.paused), table.upsert r.name ⟨r.paused, 0, r.now, "admin"⟩ (fun _ => true) fun row =>
      { row with paused := r.paused, updatedAt := r.now, updatedBy := "admin" })

/-- What stops the queues. -/
structure Backpressure where
  queueState : QueueState
  durable : QueueTable

/-- `none` where the table cannot be read. -/
def queueAllowedChecked (b : Backpressure) (queue : String) (readFault : Bool) : Option Bool :=
  if b.queueState.isPaused queue then some false
  else if readFault then none
  else some !(((b.durable queue).map (·.paused)).getD false)

def queueAllowed (b : Backpressure) (queue : String) (readFault : Bool) : Bool :=
  match queueAllowedChecked b queue readFault with
  | some allowed => allowed
  | none => false

/-! ## The loop -/

namespace QueueState

section
variable {s : QueueState} {q queue : String} {n : Nat}

@[simp] theorem isPaused_new : new.isPaused q = false := rfl

@[simp] theorem isPaused_setLag : (s.setLag queue n).isPaused q = s.isPaused q := rfl

@[simp] theorem lagSeconds_setPaused {b : Bool} : (s.setPaused queue b).lagSeconds = s.lagSeconds := rfl

theorem isPaused_setPaused {b : Bool} : (s.setPaused queue b).isPaused q = if q = queue then b else s.isPaused q := by
  rw [isPaused, setPaused]
  by_cases h : q = queue
  · rw [h, AList.lookup_insert, if_pos rfl, Option.getD_some]
  · rw [AList.lookup_insert_ne h, if_neg h, isPaused]

theorem lagSeconds_pauseLoop (queues : List String) (count : Nat) :
    (pauseLoop n queues count s).lagSeconds = s.lagSeconds := by
  fun_induction pauseLoop n queues count s with
  | case1 => rfl
  | case2 => rfl
  | case3 queue queues count s hcount hlive ih => exact ih
  | case4 queue queues count s hcount hlive hrunning ih => exact ih
  | case5 queue queues count s hcount hlive hpaused ih => exact ih

/-- The queues that the loop may pause, from those that it goes through. -/
def running (s : QueueState) (queues : List String) : List String :=
  queues.filter fun queue => queue != QUEUE_LIVE_WATCH && !s.isPaused queue

theorem running_setPaused {queues : List String} (h : queue ∉ queues) {b : Bool} :
    (s.setPaused queue b).running queues = s.running queues := by
  apply List.filter_congr
  intro r hr
  rw [isPaused_setPaused, if_neg]
  rintro rfl
  exact h hr

/-- The loop pauses the first of the running queues, as many as the target leaves. -/
theorem isPaused_pauseLoop {queues : List String} (hnodup : queues.Nodup) (count : Nat) :
    (pauseLoop n queues count s).isPaused q = true ↔
      s.isPaused q = true ∨ q ∈ (s.running queues).take (n - count) := by
  fun_induction pauseLoop n queues count s with
  | case1 => simp [running]
  | case2 queue queues count s hcount =>
    rw [Nat.sub_eq_zero_of_le hcount]
    simp
  | case3 queue queues count s hcount hlive ih =>
    rw [ih (List.nodup_cons.mp hnodup).2]
    simp [running, beq_iff_eq.mp hlive]
  | case4 queue queues count s hcount hlive hrunning ih =>
    obtain ⟨hfresh, hnodup⟩ := List.nodup_cons.mp hnodup
    have hleft : n - count = n - (count + 1) + 1 := by omega
    have hhead : s.running (queue :: queues) = queue :: s.running queues := by
      rw [running, List.filter_cons_of_pos, running]
      simpa using ⟨by simpa using hlive, by simpa using hrunning⟩
    rw [ih hnodup, running_setPaused hfresh, isPaused_setPaused, hhead, hleft, List.take_succ_cons, List.mem_cons]
    by_cases hq : q = queue
    · simp [hq]
    · simp [hq]
  | case5 queue queues count s hcount hlive hpaused ih =>
    rw [ih (List.nodup_cons.mp hnodup).2, running, running, List.filter_cons_of_neg]
    simpa using fun _ => by simpa using hpaused

/-- The count at the start is the number of the paused queues, wherever they are listed. -/
theorem pausedCount_eq {queues : List String} (hnodup : queues.Nodup)
    (h : ∀ q, s.isPaused q = true ↔ q ∈ queues) : s.pausedCount = queues.length := by
  have hperm : ((s.paused.entries.filter (·.2)).map (·.1)).Perm queues := by
    rw [List.perm_ext_iff_of_nodup _ hnodup]
    · intro q
      rw [← h, isPaused]
      constructor
      · intro hq
        obtain ⟨⟨r, b⟩, hmem, rfl⟩ := List.mem_map.mp hq
        obtain ⟨hmem, hb⟩ := List.mem_filter.mp hmem
        rw [AList.mem_lookup_iff.mpr hmem]
        exact hb
      · intro hq
        obtain ⟨b, hb, htrue⟩ : ∃ b, s.paused.lookup q = some b ∧ b = true := by
          cases hlookup : s.paused.lookup q with
          | none => simp [hlookup] at hq
          | some b => exact ⟨b, rfl, by simpa [hlookup] using hq⟩
        exact List.mem_map.mpr ⟨⟨q, b⟩, List.mem_filter.mpr ⟨AList.mem_lookup_iff.mp hb, htrue⟩, rfl⟩
    · exact List.Nodup.sublist (List.filter_sublist.map _) s.paused.nodupKeys
  rw [pausedCount, List.countP_eq_length_filter, ← hperm.length_eq, List.length_map]

end

end QueueState

/-! ## Runs -/

/-- What happens to the queues: pressure that the process meets, its restarts, and requests of operators. -/
inductive QueueEvent where
  | restart
  | pauseBottomUp (targetPaused : Nat)
  | resumeAll
  | setLag (queue : String) (seconds : Nat)
  | request (r : PauseRequest)

def handle (tokenHash : String → String) (b : Backpressure) : QueueEvent → Backpressure
  | .restart => { b with queueState := QueueState.new }
  | .pauseBottomUp n => { b with queueState := b.queueState.pauseBottomUp n }
  | .resumeAll => { b with queueState := b.queueState.resumeAll }
  | .setLag queue seconds => { b with queueState := b.queueState.setLag queue seconds }
  | .request r => { b with durable := (setQueuePause tokenHash b.durable r).2 }

/-- After the events, from a new process with an empty table. -/
def after (tokenHash : String → String) (events : List QueueEvent) : Backpressure :=
  events.foldl (handle tokenHash) ⟨QueueState.new, fun _ => none⟩

/-- The queues that pressure may pause, the lowest first. -/
def bottomUp : List String := ALL_QUEUES.reverse.filter (· != QUEUE_LIVE_WATCH)

/-- Pressure has asked for so many paused queues, and they have not been resumed since in that process. -/
def Pressed (n : Nat) : List QueueEvent → Prop :=
  Since (fun _ e => e = .pauseBottomUp n) fun e => e = .resumeAll ∨ e = .restart

/-- The event is an operator's request that is served, and that pauses or resumes the queue. -/
def QueueEvent.Writes (tokenHash : String → String) (queue : String) (paused : Bool) : QueueEvent → Prop
  | .request r => requireWriteAuth tokenHash r.toRequest r.sessions = .ok () ∧ queue ∈ ALL_QUEUES ∧
      r.writeFault = false ∧ r.name = queue ∧ r.paused = paused
  | _ => False

/-- An operator has paused the queue and none has resumed it since. -/
def Stopped (tokenHash : String → String) (queue : String) : List QueueEvent → Prop :=
  Since (fun _ e => e.Writes tokenHash queue true) fun e => e.Writes tokenHash queue false

/-- Exactly the lowest queues are paused. -/
def Shed (s : QueueState) (k : Nat) : Prop := ∀ q, s.isPaused q = true ↔ q ∈ bottomUp.take k

section
variable {tokenHash : String → String} {events : List QueueEvent} {e : QueueEvent} {s : QueueState} {q : String}
  {k n : Nat}

theorem mem_take_max {l : List String} :
    q ∈ l.take (max k n) ↔ q ∈ l.take k ∨ q ∈ (l.drop k).take (n - (l.take k).length) := by
  rw [List.length_take]
  rcases Nat.le_total l.length k with hk | hk
  · rw [List.drop_eq_nil_of_le hk, List.take_of_length_le hk, List.take_of_length_le (by omega)]
    simp
  · rw [Nat.min_eq_left hk]
    rcases Nat.le_total n k with hn | hn
    · rw [Nat.max_eq_left hn, Nat.sub_eq_zero_of_le hn]
      simp
    · rw [Nat.max_eq_right hn, ← List.mem_append, ← List.take_add, Nat.add_sub_of_le hn]

theorem filter_not_mem_take {l : List String} (h : l.Nodup) :
    l.filter (fun a => decide (a ∉ l.take k)) = l.drop k := by
  calc l.filter (fun a => decide (a ∉ l.take k))
      = (l.take k ++ l.drop k).filter fun a => decide (a ∉ l.take k) := by rw [List.take_append_drop]
    _ = [] ++ l.drop k := by
      rw [List.filter_append, List.filter_eq_nil_iff.mpr, List.filter_eq_self.mpr]
      · intro a ha
        simpa using fun hmem => List.disjoint_take_drop h (Nat.le_refl k) hmem ha
      · intro a ha
        simpa using ha
    _ = l.drop k := List.nil_append _

theorem bottomUp_nodup : bottomUp.Nodup := by decide

/-- What is running of the queues are the others, in their order. -/
theorem running_of_shed (h : Shed s k) : s.running ALL_QUEUES.reverse = bottomUp.drop k := by
  rw [← filter_not_mem_take bottomUp_nodup, QueueState.running, bottomUp, List.filter_filter]
  apply List.filter_congr
  intro queue _
  rw [Bool.and_comm, ← bottomUp]
  congr 1
  rw [Bool.eq_iff_iff, decide_eq_true_eq, ← h queue]
  simp

theorem shed_pauseBottomUp (h : Shed s k) : Shed (s.pauseBottomUp n) (max k n) := by
  intro q
  rw [QueueState.pauseBottomUp, QueueState.isPaused_pauseLoop (by decide), running_of_shed h, h q, mem_take_max,
    QueueState.pausedCount_eq (bottomUp_nodup.sublist (List.take_sublist k bottomUp)) h]

theorem isPaused_resumeAll : s.resumeAll.isPaused q = (s.isPaused q && decide (q ∉ ALL_QUEUES)) := by
  have hfold : ∀ queues : List String, (queues.foldl (fun s queue => s.setPaused queue false) s).isPaused q =
      (s.isPaused q && decide (q ∉ queues)) := by
    intro queues
    induction queues using List.reverseRecOn with
    | nil => simp
    | append_singleton queues queue ih =>
      rw [List.foldl_concat, QueueState.isPaused_setPaused, ih]
      by_cases hq : q = queue <;> simp [hq]
  exact hfold ALL_QUEUES

theorem lagSeconds_resumeAll : s.resumeAll.lagSeconds = s.lagSeconds := rfl

theorem shed_resumeAll (h : Shed s k) : Shed s.resumeAll 0 := by
  intro q
  rw [isPaused_resumeAll, List.take_zero]
  apply iff_of_false _ List.not_mem_nil
  intro hq
  rw [Bool.and_eq_true, decide_eq_true_eq] at hq
  have hmem : q ∈ bottomUp := List.mem_of_mem_take ((h q).mp hq.1)
  exact hq.2 (List.mem_reverse.mp (List.mem_filter.mp hmem).1)

/-- Exactly the lowest queues are paused, as many as the greatest target that has been asked for. -/
def Level (events : List QueueEvent) (s : QueueState) : Prop :=
  ∃ k, Shed s k ∧ (k ≠ 0 → Pressed k events) ∧ ∀ n, Pressed n events → n ≤ k

theorem pressed_concat : Pressed n (events ++ [e]) ↔
    e = .pauseBottomUp n ∨ (Pressed n events ∧ ¬ (e = .resumeAll ∨ e = .restart)) :=
  since_concat

/-- One event keeps the level. -/
theorem level_step {b : Backpressure} (h : Level events b.queueState) :
    Level (events ++ [e]) (handle tokenHash b e).queueState := by
  obtain ⟨k, hshed, hpressed, hmax⟩ := h
  have hidle : ¬ (e = .resumeAll ∨ e = .restart) → (∀ n, e ≠ .pauseBottomUp n) → (k ≠ 0 → Pressed k (events ++ [e])) ∧
      ∀ n, Pressed n (events ++ [e]) → n ≤ k := by
    intro hresume hpause
    have hsame : ∀ n, Pressed n (events ++ [e]) ↔ Pressed n events := by
      intro n
      rw [pressed_concat, or_iff_right (hpause n), and_iff_left hresume]
    simpa only [hsame] using ⟨hpressed, hmax⟩
  have hreset : e = .resumeAll ∨ e = .restart → (∀ n, e ≠ .pauseBottomUp n) →
      ∀ n, Pressed n (events ++ [e]) → n ≤ 0 := by
    intro hreset hpause n hn
    rcases pressed_concat.mp hn with heq | ⟨-, hne⟩
    · exact absurd heq (hpause n)
    · exact absurd hreset hne
  cases e with
  | restart => exact ⟨0, fun q => by simp [handle], fun h => absurd rfl h, hreset (Or.inr rfl) (by simp)⟩
  | pauseBottomUp n =>
    refine ⟨max k n, shed_pauseBottomUp hshed, fun hk => pressed_concat.mpr ?_, fun m hm => ?_⟩
    · rcases Nat.le_total k n with hle | hle
      · exact Or.inl (by rw [Nat.max_eq_right hle])
      · rw [Nat.max_eq_left hle] at hk ⊢
        exact Or.inr ⟨hpressed hk, by simp⟩
    · rcases pressed_concat.mp hm with heq | ⟨hm, -⟩
      · rw [QueueEvent.pauseBottomUp.inj heq]
        exact Nat.le_max_right k m
      · exact Nat.le_trans (hmax m hm) (Nat.le_max_left k n)
  | resumeAll => exact ⟨0, shed_resumeAll hshed, fun h => absurd rfl h, hreset (Or.inl rfl) (by simp)⟩
  | setLag queue seconds => exact ⟨k, hshed, hidle (by simp) (by simp)⟩
  | request r => exact ⟨k, hshed, hidle (by simp) (by simp)⟩

theorem level_after : Level events (after tokenHash events).queueState := by
  induction events using List.reverseRecOn with
  | nil => exact ⟨0, fun q => by simp [after], fun h => absurd rfl h, fun n hn => absurd hn not_since_nil⟩
  | append_singleton events e ih =>
    rw [after, List.foldl_concat]
    exact level_step ih

/-- In any run, pressure has paused the lowest queues and never the live watch. -/
theorem isPaused_after : (after tokenHash events).queueState.isPaused q = true ↔
    ∃ n, Pressed n events ∧ q ∈ bottomUp.take n := by
  have hlevel : Level events (after tokenHash events).queueState := level_after
  obtain ⟨k, hshed, hpressed, hmax⟩ := hlevel
  rw [hshed q]
  constructor
  · intro hq
    refine ⟨k, hpressed ?_, hq⟩
    rintro rfl
    simp at hq
  · rintro ⟨n, hn, hq⟩
    exact (List.take_sublist_take_left (hmax n hn)).subset hq

/-! ## The table -/

/-- A request that is not served leaves the table, and one that is served writes the row of its queue. -/
theorem setQueuePause_cases (tokenHash : String → String) (table : QueueTable) (r : PauseRequest) :
    ((∃ e, (setQueuePause tokenHash table r).1 = .error e) ∧ (setQueuePause tokenHash table r).2 = table ∧
        ∀ queue paused, ¬ (QueueEvent.request r).Writes tokenHash queue paused) ∨
      ((setQueuePause tokenHash table r).1 = .ok (r.name, r.paused) ∧
        (QueueEvent.request r).Writes tokenHash r.name r.paused ∧
        ((setQueuePause tokenHash table r).2 r.name).map (·.paused) = some r.paused ∧
        ∀ queue ≠ r.name, (setQueuePause tokenHash table r).2 queue = table queue) := by
  unfold setQueuePause
  cases hauth : requireWriteAuth tokenHash r.toRequest r.sessions with
  | error e => exact Or.inl ⟨⟨e, rfl⟩, rfl, fun queue paused h => by simp [QueueEvent.Writes, hauth] at h⟩
  | ok u =>
    dsimp only
    by_cases hname : r.name ∈ ALL_QUEUES
    · rw [if_neg (by simpa using hname)]
      cases hfault : r.writeFault with
      | true => exact Or.inl ⟨⟨_, rfl⟩, rfl, fun queue paused h => by simp [QueueEvent.Writes, hfault] at h⟩
      | false =>
        refine Or.inr ⟨rfl, ⟨hauth, hname, hfault, rfl, rfl⟩, ?_, fun queue hne => set_ne _ hne _⟩
        dsimp only [Table.upsert]
        rw [if_neg (by simp)]
        dsimp only
        rw [set_self]
        cases table r.name <;> rfl
    · rw [if_pos (by simpa using hname)]
      refine Or.inl ⟨⟨_, rfl⟩, rfl, fun queue paused h => hname ?_⟩
      obtain ⟨-, hmem, -, heq, -⟩ := h
      rw [heq]
      exact hmem

theorem stopped_concat : Stopped tokenHash q (events ++ [e]) ↔
    e.Writes tokenHash q true ∨ (Stopped tokenHash q events ∧ ¬ e.Writes tokenHash q false) :=
  since_concat

/-- The row says that the queue is paused just while an operator has stopped it. -/
theorem durable_after : (((after tokenHash events).durable q).map (·.paused)).getD false = true ↔
    Stopped tokenHash q events := by
  induction events using List.reverseRecOn with
  | nil => exact iff_of_false (by simp [after]) not_since_nil
  | append_singleton events e ih =>
    have hfold : after tokenHash (events ++ [e]) = handle tokenHash (after tokenHash events) e :=
      List.foldl_concat _ _ _ _
    have hidle : (∀ paused, ¬ e.Writes tokenHash q paused) →
        (Stopped tokenHash q (events ++ [e]) ↔ Stopped tokenHash q events) := by
      intro hno
      rw [stopped_concat, or_iff_right (hno true), and_iff_left (hno false)]
    rw [hfold]
    cases e with
    | restart => rw [hidle fun _ => id]; exact ih
    | pauseBottomUp n => rw [hidle fun _ => id]; exact ih
    | resumeAll => rw [hidle fun _ => id]; exact ih
    | setLag queue seconds => rw [hidle fun _ => id]; exact ih
    | request r =>
      show (((setQueuePause tokenHash (after tokenHash events).durable r).2 q).map (·.paused)).getD false = true ↔ _
      rcases setQueuePause_cases tokenHash (after tokenHash events).durable r with
        ⟨-, hsame, hno⟩ | ⟨-, hwrites, hset, hother⟩
      · rw [hsame, hidle fun paused => hno q paused]
        exact ih
      · by_cases hq : q = r.name
        · subst hq
          rw [hset, stopped_concat]
          cases hpaused : r.paused with
          | true => exact iff_of_true rfl (Or.inl (hpaused ▸ hwrites))
          | false =>
            refine iff_of_false (by simp) ?_
            rintro (⟨-, -, -, -, htrue⟩ | ⟨-, hno⟩)
            · exact absurd (hpaused.symm.trans htrue) (by simp)
            · exact hno (hpaused ▸ hwrites)
        · rw [hother q hq, hidle fun paused h => hq h.2.2.2.1.symm]
          exact ih

/-- A worker of the queue runs just where the table could be read and neither pressure nor
an operator has stopped it. -/
theorem queueAllowed_iff (tokenHash : String → String) (events : List QueueEvent) (q : String) (readFault : Bool) :
    queueAllowed (after tokenHash events) q readFault = true ↔
      readFault = false ∧ (¬ ∃ n, Pressed n events ∧ q ∈ bottomUp.take n) ∧ ¬ Stopped tokenHash q events := by
  have hpaused : (after tokenHash events).queueState.isPaused q = true ↔ ∃ n, Pressed n events ∧ q ∈ bottomUp.take n :=
    isPaused_after
  rw [← hpaused, ← durable_after, queueAllowed, queueAllowedChecked]
  cases (after tokenHash events).queueState.isPaused q with
  | true => simp
  | false =>
    cases readFault with
    | true => simp
    | false => simp

/-! ## The lag -/

/-- The process has been told the lag of the queue, and no other one since. -/
def Lagging (queue : String) (lag : Nat) : List QueueEvent → Prop :=
  Since (fun _ e => e = .setLag queue lag) fun e => (∃ m, e = .setLag queue m) ∨ e = .restart

/-- The lag of a queue is the last that was set. -/
theorem lookup_after {lag : Nat} : (after tokenHash events).queueState.lagSeconds.lookup q = some lag ↔
    Lagging q lag events := by
  induction events using List.reverseRecOn with
  | nil => exact iff_of_false (by simp [after, QueueState.new]) not_since_nil
  | append_singleton events e ih =>
    have hfold : after tokenHash (events ++ [e]) = handle tokenHash (after tokenHash events) e :=
      List.foldl_concat _ _ _ _
    rw [hfold, Lagging, since_concat, ← Lagging, ← ih]
    cases e with
    | restart => simp [handle, QueueState.new]
    | pauseBottomUp n => simp [handle, QueueState.pauseBottomUp, QueueState.lagSeconds_pauseLoop]
    | resumeAll => simp [handle, lagSeconds_resumeAll]
    | setLag queue seconds =>
      show ((after tokenHash events).queueState.lagSeconds.insert queue seconds).lookup q = some lag ↔ _
      by_cases hq : q = queue
      · subst hq
        rw [AList.lookup_insert]
        simp
      · rw [AList.lookup_insert_ne hq]
        simp [Ne.symm hq]
    | request r => simp [handle]

/-- The backfill may run just where pressure has not asked for two paused queues, and its lag is below the bound. -/
theorem backfillAllowed_iff (tokenHash : String → String) (events : List QueueEvent) (pauseLagSeconds : Nat) :
    (after tokenHash events).queueState.backfillAllowed pauseLagSeconds = true ↔
      (∀ n, Pressed n events → n < 2) ∧ 0 < pauseLagSeconds ∧
        ∀ lag, Lagging QUEUE_HISTORICAL_BACKFILL lag events → lag < pauseLagSeconds := by
  have hsecond : ∀ n, QUEUE_HISTORICAL_BACKFILL ∈ bottomUp.take n ↔ 2 ≤ n := by
    intro n
    have hsplit : bottomUp = QUEUE_SIGNAL_EVAL :: QUEUE_HISTORICAL_BACKFILL :: bottomUp.drop 2 := by decide
    by_cases hn : 2 ≤ n
    · obtain ⟨m, rfl⟩ := Nat.exists_eq_add_of_le' hn
      exact iff_of_true (by rw [hsplit]; simp) hn
    · obtain rfl | rfl : n = 0 ∨ n = 1 := by omega
      · simp
      · exact iff_of_false (by decide) (by omega)
  have hpaused : (after tokenHash events).queueState.isPaused QUEUE_HISTORICAL_BACKFILL = false ↔
      ∀ n, Pressed n events → n < 2 := by
    rw [← Bool.not_eq_true, isPaused_after]
    simp only [hsecond, not_exists, not_and, Nat.not_le]
  have hlag : ∀ lag, (after tokenHash events).queueState.lagSeconds.lookup QUEUE_HISTORICAL_BACKFILL = some lag ↔
      Lagging QUEUE_HISTORICAL_BACKFILL lag events := fun _ => lookup_after
  simp only [← hlag]
  rw [QueueState.backfillAllowed, Bool.and_eq_true, Bool.not_eq_true', hpaused, decide_eq_true_eq]
  apply and_congr_right
  intro _
  cases (after tokenHash events).queueState.lagSeconds.lookup QUEUE_HISTORICAL_BACKFILL with
  | none => simp
  | some lag =>
    simp only [Option.getD_some, Option.some.injEq]
    constructor
    · intro hlt
      exact ⟨by omega, fun m hm => hm ▸ hlt⟩
    · intro h
      exact h.2 lag rfl

end

/-- A pressure of two stops the backfill as well, whatever its lag. -/
example : (after id [.setLag "historical_backfill" 10, .pauseBottomUp 2]).queueState.backfillAllowed 60 = false := by
  decide

end WhaleIntelligence.Queues
