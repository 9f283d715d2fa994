import WhaleIntelligence.Telegram.Ingest

/- The mentions of a message that is delivered again and again.

   The delivery that inserts the message is the only one that inserts mentions: those
   before it fail without effect, those after it find a duplicate
   (`mentionsOf_deliveries`). So a failure between two of its mentions is final, and
   the mentions are complete exactly when it meets none (`mentions_complete_iff`). -/
namespace WhaleIntelligence.Telegram
open WhaleIntelligence KeyedTable FirstWins

/-- A delivery of a message, and the calls that fail in it. -/
structure Delivery where
  message : RawChannelMessage
  faults : Faults

def deliver (x : Crates) (t : TextCrates) (s : PgMessageStore) (d : Delivery) : PgMessageStore :=
  (ingestMessage x t d.faults d.message s).2

/-- The mentions of a message, in the order of their ids. -/
def mentionsOf (key : MessageKey) (s : PgMessageStore) : List MentionRow :=
  (s.mentions.rows.map Prod.snd).filter fun r => r.message = key

/-- The delivery gets past the insertion of its message. -/
def Delivery.inserts (d : Delivery) : Bool := !d.faults.channelAllowlisted && !d.faults.insertMessage

section
variable {x : Crates} {t : TextCrates} {s : PgMessageStore} {m : RawChannelMessage} {d : Delivery}
  {ps : List ParsedMention} {parsed : ParsedMessage} {text : Option String}

/-! ## The extracted mentions -/

/-- No pair of kind and value is extracted twice. -/
theorem parsed_nodup (h : parseMessageText t text = some parsed) :
    (parsed.mentions.map ParsedMention.seenKey).Nodup := by
  cases text with
  | none =>
    cases h
    exact List.nodup_nil
  | some text =>
    simp only [parseMessageText] at h
    split at h
    · cases h
      exact List.nodup_nil
    · simp only [Option.bind_eq_bind, Option.bind_eq_some_iff, Option.pure_def, Option.some.injEq] at h
      obtain ⟨urls, -, candidates, -, claims, -, rfl⟩ := h
      exact firstWins_keys_nodup ..

theorem asStr_injective {k k' : MentionKind} (h : k.asStr = k'.asStr) : k = k' := by
  cases k <;> cases k' <;> first | rfl | exact absurd h (by decide)

theorem seenKey_of_key {p q : ParsedMention} (h : (mentionRow m p).key = (mentionRow m q).key) :
    p.seenKey = q.seenKey := by
  simp only [MentionRow.key, mentionRow, Prod.mk.injEq] at h
  rw [ParsedMention.seenKey, ParsedMention.seenKey, asStr_injective h.2.1, h.2.2]

/-! ## The loop over the mentions -/

theorem mentionsOf_insertMention {r : MentionRow} (hr : r.message = m.key) (hnew : r.key ∉ s.mentions.keys) :
    mentionsOf m.key (s.insertMention r) = mentionsOf m.key s ++ [r] := by
  rw [mentionsOf, PgMessageStore.insertMention, SerialTable.Table.insert_new hnew]
  simp [SerialTable.Table.push, mentionsOf, List.filter_append, hr]

theorem keys_insertMention {r : MentionRow} (hnew : r.key ∉ s.mentions.keys) :
    (s.insertMention r).mentions.keys = s.mentions.keys ++ [r.key] := by
  rw [PgMessageStore.insertMention, SerialTable.Table.insert_new hnew]
  simp [SerialTable.Table.push, SerialTable.Table.keys]

/-- The loop inserts the mentions up to the first failure, and all of them only where it meets none. -/
theorem mentionsOf_insertMentions (fails : Nat → Bool) (hfree : ∀ p ∈ ps, (mentionRow m p).key ∉ s.mentions.keys)
    (hkeys : (ps.map ParsedMention.seenKey).Nodup) (k : Nat) :
    ∃ n ≤ ps.length,
      mentionsOf m.key (insertMentions m fails k ps s).2 = mentionsOf m.key s ++ (ps.take n).map (mentionRow m) ∧
        (n = ps.length ↔ ∀ i < ps.length, fails (k + i) = false) := by
  induction ps generalizing s k with
  | nil =>
    refine ⟨0, le_refl _, (List.append_nil _).symm, fun _ i hi => ?_, fun _ => rfl⟩
    exact absurd hi (Nat.not_lt_zero i)
  | cons p ps ih =>
    rw [insertMentions]
    split
    · rename_i hfail
      -- the loop ends before the mention
      refine ⟨0, Nat.zero_le _, (List.append_nil _).symm, fun h => ?_, fun h => ?_⟩
      · exact absurd h (Nat.succ_ne_zero _).symm
      · have hzero := h 0 (Nat.succ_pos _)
        rw [Nat.add_zero, hfail] at hzero
        cases hzero
    · rename_i hfail
      rw [List.map_cons, List.nodup_cons] at hkeys
      have hnew := hfree p List.mem_cons_self
      have hfree' : ∀ q ∈ ps, (mentionRow m q).key ∉ (s.insertMention (mentionRow m p)).mentions.keys := by
        intro q hq hmem
        rw [keys_insertMention hnew, List.mem_append, List.mem_singleton] at hmem
        obtain hold | heq := hmem
        · exact hfree q (List.mem_cons_of_mem _ hq) hold
        · exact hkeys.1 (seenKey_of_key heq ▸ List.mem_map_of_mem hq)
      obtain ⟨n, hn, hstored, hall⟩ := ih hfree' hkeys.2 (k + 1)
      refine ⟨n + 1, Nat.succ_le_succ hn, ?_, ?_⟩
      · rw [hstored, mentionsOf_insertMention rfl hnew, List.take_succ_cons, List.map_cons, List.append_assoc,
          List.singleton_append]
      · rw [List.length_cons, Nat.add_right_cancel_iff, hall]
        refine ⟨fun h i hi => ?_, fun h i hi => ?_⟩
        · cases i with
          | zero => exact Bool.eq_false_iff.mpr hfail
          | succ i =>
            have hi' := h i (Nat.lt_of_succ_lt_succ hi)
            rwa [Nat.add_right_comm] at hi'
        · have hi' := h (i + 1) (Nat.succ_lt_succ hi)
          rwa [Nat.add_right_comm]

/-! ## One delivery -/

/-- A delivery that does not get past the insertion changes nothing. -/
theorem deliver_blocked (h : d.inserts = false) :
    deliver x t s d = s := by
  obtain ⟨hsame, -⟩ | ⟨hread, -, hinsert, -⟩ := ingestMessage_cases x t s d.message d.faults
  · exact hsame
  · simp [Delivery.inserts, hread, hinsert] at h

/-- A delivery of a message that is stored leaves the messages and the mentions. -/
theorem deliver_known (h : (s.messages d.message.key).isSome) :
    ((deliver x t s d).messages d.message.key).isSome ∧ (deliver x t s d).mentions = s.mentions := by
  obtain ⟨hsame, -⟩ | ⟨-, -, -, hgo⟩ := ingestMessage_cases x t s d.message d.faults
  · rw [deliver, hsame]
    exact ⟨h, rfl⟩
  · have hold : ¬ (s.insertMessage x d.message).1 = true := by
      rw [insertMessage_messages.1]
      intro hnone
      rw [hnone] at h
      cases h
    rw [if_neg hold] at hgo
    rw [deliver, hgo]
    exact ⟨insertMessage_messages.2.1, insertMessage_mentions⟩

theorem mentionRow_congr {m' : RawChannelMessage} (h : m'.key = m.key) : mentionRow m' = mentionRow m := by
  simp only [RawChannelMessage.key, Prod.mk.injEq] at h
  obtain ⟨h1, h2, h3⟩ := h
  funext p
  rw [mentionRow, mentionRow, h1, h2, h3]

theorem key_not_mem {p : ParsedMention} (hnone : mentionsOf m.key s = []) : (mentionRow m p).key ∉ s.mentions.keys := by
  intro hmem
  obtain ⟨r, hr, hrkey⟩ := SerialTable.Table.mem_keys.mp hmem
  have hmine : r.2 ∈ mentionsOf m.key s := by
    rw [mentionsOf, List.mem_filter, decide_eq_true_eq]
    exact ⟨List.mem_map_of_mem hr, congrArg Prod.fst hrkey⟩
  rw [hnone] at hmine
  exact List.not_mem_nil hmine

/-- The delivery that inserts the message inserts its mentions up to the first failure. -/
theorem deliver_first (hallow : s.channelAllowlisted d.message.channelKey = true)
    (hnew : s.messages d.message.key = none) (hnone : mentionsOf d.message.key s = [])
    (hparse : parseMessageText t d.message.text = some parsed) (hins : d.inserts = true) :
    ((deliver x t s d).messages d.message.key).isSome ∧
      ∃ n ≤ parsed.mentions.length,
        mentionsOf d.message.key (deliver x t s d) = (parsed.mentions.take n).map (mentionRow d.message) ∧
          (n = parsed.mentions.length ↔ ∀ i < parsed.mentions.length, d.faults.insertMention i = false) := by
  obtain ⟨-, hstop⟩ | ⟨-, -, -, hgo⟩ := ingestMessage_cases x t s d.message d.faults
  · simp [Delivery.inserts] at hins
    simp [hins, hallow] at hstop
  · rw [if_pos (insertMessage_messages.1.mpr hnew), hparse] at hgo
    rw [deliver, hgo]
    refine ⟨?_, ?_⟩
    · rw [(insertMentions_store _ _).1]
      exact insertMessage_messages.2.1
    · have hnone' : mentionsOf d.message.key (s.insertMessage x d.message).2 = [] := by
        rw [mentionsOf, insertMessage_mentions]
        exact hnone
      have hstored := mentionsOf_insertMentions d.faults.insertMention (fun p _ => key_not_mem hnone')
        (parsed_nodup hparse) 0
      simp only [hnone', List.nil_append, Nat.zero_add] at hstored
      exact hstored

/-! ## Many deliveries -/

theorem deliveries_known {ds : List Delivery} {key : MessageKey} (hsame : ∀ d ∈ ds, d.message.key = key)
    (h : (s.messages key).isSome) : (ds.foldl (deliver x t) s).mentions = s.mentions := by
  induction ds generalizing s with
  | nil => rfl
  | cons d ds ih =>
    have hkey := hsame d List.mem_cons_self
    obtain ⟨hstored, hmentions⟩ := deliver_known (x := x) (t := t) (d := d) (hkey.symm ▸ h)
    rw [List.foldl_cons, ih (fun e he => hsame e (List.mem_cons_of_mem _ he)) (hkey ▸ hstored), hmentions]

/-- The mentions of the message are those that the first inserting delivery inserts. -/
theorem mentionsOf_deliveries {ds : List Delivery} {first : Delivery}
    (hsame : ∀ d ∈ ds, d.message.key = m.key ∧ d.message.text = m.text)
    (hallow : s.channelAllowlisted m.channelKey = true) (hnew : s.messages m.key = none)
    (hnone : mentionsOf m.key s = []) (hparse : parseMessageText t m.text = some parsed)
    (hfirst : ds.find? Delivery.inserts = some first) :
    ∃ n ≤ parsed.mentions.length,
      mentionsOf m.key (ds.foldl (deliver x t) s) = (parsed.mentions.take n).map (mentionRow m) ∧
        (n = parsed.mentions.length ↔ ∀ i < parsed.mentions.length, first.faults.insertMention i = false) := by
  induction ds with
  | nil => cases hfirst
  | cons d ds ih =>
    obtain ⟨hkey, htext⟩ := hsame d List.mem_cons_self
    have hchannel : d.message.channelKey = m.channelKey := congrArg Prod.fst hkey
    have hrest : ∀ e ∈ ds, e.message.key = m.key ∧ e.message.text = m.text :=
      fun e he => hsame e (List.mem_cons_of_mem _ he)
    rw [List.foldl_cons]
    by_cases hins : d.inserts = true
    · rw [List.find?_cons_of_pos hins, Option.some.injEq] at hfirst
      obtain rfl := hfirst
      obtain ⟨hstored, hmentions⟩ := deliver_first (x := x) (hchannel.symm ▸ hallow) (hkey.symm ▸ hnew)
        (hkey.symm ▸ hnone) (htext.symm ▸ hparse) hins
      have hlater := deliveries_known (x := x) (t := t) (fun e he => (hrest e he).1) (hkey ▸ hstored)
      rw [mentionsOf, hlater]
      rw [hkey, mentionRow_congr hkey] at hmentions
      exact hmentions
    · rw [List.find?_cons_of_neg hins] at hfirst
      rw [deliver_blocked (Bool.eq_false_iff.mpr hins)]
      exact ih hrest hfirst

/-- A message that was not stored has its mentions, each once, after deliveries whose last one meets no failure,
    exactly when the first delivery to insert it meets no failure in its mentions either. -/
theorem mentions_complete_iff (x : Crates) (t : TextCrates) {s : PgMessageStore} {m : RawChannelMessage}
    {ds : List Delivery} {last : Delivery} {parsed : ParsedMessage}
    (hallow : s.channelAllowlisted m.channelKey = true) (hnew : s.messages m.key = none)
    (hnone : mentionsOf m.key s = []) (hparse : parseMessageText t m.text = some parsed)
    (hsame : ∀ d ∈ ds, d.message.key = m.key ∧ d.message.text = m.text) (hlast : ds.getLast? = some last)
    (hclean : last.faults = noFaults) :
    mentionsOf m.key (ds.foldl (deliver x t) s) = parsed.mentions.map (mentionRow m) ↔
      ∀ first, ds.find? Delivery.inserts = some first →
        ∀ i < parsed.mentions.length, first.faults.insertMention i = false := by
  obtain ⟨first, hfirst⟩ : ∃ first, ds.find? Delivery.inserts = some first := by
    rw [← Option.isSome_iff_exists, List.find?_isSome]
    refine ⟨last, List.mem_of_getLast? hlast, ?_⟩
    rw [Delivery.inserts, hclean]
    rfl
  obtain ⟨n, hn, hstored, hall⟩ := mentionsOf_deliveries (x := x) hsame hallow hnew hnone hparse hfirst
  rw [hstored, hfirst]
  refine ⟨fun h other hother => ?_, fun h => ?_⟩
  · cases hother
    have hlen := congrArg List.length h
    simp only [List.length_map, List.length_take] at hlen
    exact hall.mp (by omega)
  · rw [hall.mpr (h first rfl), List.take_length]

end

/-! ## One message with a link -/

/-- A store with one allowlisted channel. -/
def oneChannel : PgMessageStore where
  channels key := if key = "chan" then some ⟨true, none, none, "active"⟩ else none
  messages _ := none
  mentions := SerialTable.Table.empty

def linkMessage : RawChannelMessage where
  channelKey := "chan"
  messageId := 1
  editVersion := 0
  postedAt := none
  observedAt := 0
  authorRef := none
  authorName := none
  text := some "http://a.b"
  deleted := false
  hasMedia := false
  raw := .null

/-- The message inserts at once, its mention does not. -/
def mentionFault : Faults := ⟨false, false, fun k => k = 0⟩

def linkParsed : ParsedMessage := ⟨[⟨.url, "http://a.b", "http://a.b"⟩], [], false⟩

/-- A failure before the insertion of the message is made up for. -/
theorem link_retried : mentionsOf linkMessage.key ([⟨linkMessage, ⟨false, true, fun _ => false⟩⟩,
      ⟨linkMessage, noFaults⟩].foldl (deliver (tableCrates [] [] []) latinCrates) oneChannel) =
    linkParsed.mentions.map (mentionRow linkMessage) := by
  have hparse : parseMessageText latinCrates linkMessage.text = some linkParsed := by decide +kernel
  refine (mentions_complete_iff _ _ rfl rfl rfl hparse ?_ rfl rfl).mpr ?_
  · intro d hd
    simp only [List.mem_cons, List.not_mem_nil, or_false] at hd
    obtain rfl | rfl := hd
    · exact ⟨rfl, rfl⟩
    · exact ⟨rfl, rfl⟩
  · intro first hfirst i _
    cases hfirst
    rfl

/-- A failure between the message and its mention is final: the second delivery finds a duplicate. -/
theorem link_lost : mentionsOf linkMessage.key ([⟨linkMessage, mentionFault⟩,
      ⟨linkMessage, noFaults⟩].foldl (deliver (tableCrates [] [] []) latinCrates) oneChannel) = [] ∧
    parseMessageText latinCrates linkMessage.text = some linkParsed ∧ linkParsed.mentions ≠ [] := by
  decide +kernel

end WhaleIntelligence.Telegram
