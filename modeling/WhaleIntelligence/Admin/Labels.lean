import WhaleIntelligence.Admin.Access
import WhaleIntelligence.Lib.Growing
import WhaleIntelligence.Signals.Automatic

/- The writers of wallet labels: the admin panel, the commands, and the classification.

   No writer deletes a label or changes one but by revoking it, once, and each writes for
   one workspace (`handle_grows`). So other workspaces read what they did before
   (`activeDisposition_others`), an imported block holds until the workspace revokes it
   (`import_lasts`), and a revocation that is sent again changes nothing
   (`revoke_replay`). -/
namespace WhaleIntelligence.Labels
open WhaleIntelligence Auth Signals Growing

/-! ## The writes -/

/-- `upsert_wallet`, of the wallet's existence. -/
def upsertWallet (s : LabelStore) (chain : ChainKind) (address : String) : LabelStore :=
  if s.wallets.contains (chain.asStr, address) then s
  else { s with wallets := s.wallets ++ [(chain.asStr, address)] }

/-- A label that a person has set, without an end. -/
def manualLabel (workspaceId : Int) (chain : ChainKind) (address kind : String) (disposition : Disposition) :
    WalletLabel where
  workspaceId
  chain := chain.asStr
  address
  disposition := disposition.asStr
  manual := true
  expiresAt := none
  revokedAt := none
  kind
  source := "manual"

/-- The two statements that set a label, each of which may fail. -/
def setLabel (s : LabelStore) (workspaceId : Int) (chain : ChainKind) (address kind : String)
    (disposition : Disposition) (walletFault labelFault : Bool) : Bool × LabelStore :=
  if walletFault then (false, s)
  else
    let s := upsertWallet s chain address
    if labelFault then (false, s)
    else match addWalletLabel s (manualLabel workspaceId chain address kind disposition) with
      | .error _ => (false, s)
      | .ok s => (true, s)

/-- A line of a blocklist that is neither blank nor a comment. -/
def listed (line : String) : Bool := !(trim line == "" || (trim line).toList.head? == some '#')

/-- The loop of `import_blocklist_tx`, with the number of the first line that fails, if one does. The count is a `u32`,
which wraps in the release build; where a build checks, the line that overflows it is one that fails. -/
def importLoop (workspaceId : Int) (chain : ChainKind) :
    List String → Option Nat → UInt32 → LabelStore → Except String (UInt32 × LabelStore)
  | [], _, imported, s => .ok (imported, s)
  | line :: lines, fault, imported, s =>
    if listed line then
      if fault = some 0 then .error "blocklist import failed"
      else match addWalletLabel (upsertWallet s chain (trim line))
          (manualLabel workspaceId chain (trim line) "manual_block" .skip) with
        | .error e => .error e
        | .ok s => importLoop workspaceId chain lines (fault.map (· - 1)) (imported + 1) s
    else importLoop workspaceId chain lines (fault.map (· - 1)) imported s

/-- One transaction: what has been written is there only after the commit. -/
def importBlocklistTx (s : LabelStore) (workspaceId : Int) (chain : ChainKind) (addresses : List String)
    (fault : Option Nat) (commitFault : Bool) : Option UInt32 × LabelStore :=
  match importLoop workspaceId chain addresses fault 0 s with
  | .error _ => (none, s)
  | .ok (imported, t) => if commitFault then (none, s) else (some imported, t)

/-- The label is revoked, where it is the one that is meant. -/
def revokeRow (hit : Bool) (now : DateTime) (row : WalletLabel) : WalletLabel :=
  if hit && row.revokedAt.isNone then { row with revokedAt := some now } else row

/-- `revoke_wallet_label`. -/
def revokeWalletLabel (s : LabelStore) (workspaceId : Int) (chain : ChainKind) (address : String)
    (kind : Option String) (now : DateTime) : LabelStore :=
  { s with labels := s.labels.map fun row =>
      revokeRow (row.isOf workspaceId chain address && kind.all (· == row.kind)) now row }

/-! ## The handlers -/

/-- What comes with a request that writes, the session store that it finds, and the database's clock. -/
structure WriteRequest extends Request where
  sessions : SessionStore
  dbNow : DateTime

section
variable (tokenHash : String → String)

/-- The two guards of a handler that writes for its workspace. -/
def writer (r : WriteRequest) : Except Refused Int := do
  requireWriteAuth tokenHash r.toRequest r.sessions
  requireWorkspace tokenHash r.toRequest r.sessions

def addLabel (s : LabelStore) (r : WriteRequest) (chain address kind disposition : String)
    (walletFault labelFault : Bool) : Except Refused Unit × LabelStore :=
  match writer tokenHash r with
  | .error e => (.error e, s)
  | .ok workspaceId =>
    match ChainKind.parse chain with
    | none => (.error .badRequest, s)
    | some chain =>
      match Disposition.parse disposition with
      | none => (.error .badRequest, s)
      | some disposition =>
        match setLabel s workspaceId chain address kind disposition walletFault labelFault with
        | (true, s) => (.ok (), s)
        | (false, s) => (.error .internalServerError, s)

/-- What `revoke_label` reports. -/
structure Revoked where
  revoked : Nat
  alreadyRevoked : Bool
  deriving DecidableEq, Repr

/-- The row that a revocation is about. `ids` are the serial numbers of the rows, by their places. -/
def meant (ids : Nat → Int) (id workspaceId : Int) (chain : ChainKind) (address : String) (i : Nat)
    (row : WalletLabel) : Bool :=
  ids i == id && row.isOf workspaceId chain address

def revokeLabel (ids : Nat → Int) (s : LabelStore) (r : WriteRequest) (chain address : String) (id : Int)
    (updateFault readFault : Bool) : Except Refused Revoked × LabelStore :=
  match writer tokenHash r with
  | .error e => (.error e, s)
  | .ok workspaceId =>
    match ChainKind.parse chain with
    | none => (.error .badRequest, s)
    | some chain =>
      if updateFault then (.error .internalServerError, s)
      else
        let affected := (s.labels.zipIdx.filter fun p =>
          meant ids id workspaceId chain address p.2 p.1 && p.1.revokedAt.isNone).length
        let already := s.labels.zipIdx.any fun p =>
          meant ids id workspaceId chain address p.2 p.1 && p.1.revokedAt.isSome
        if affected = 0 then
          if readFault then (.error .internalServerError, s)
          else if already then (.ok ⟨0, true⟩, s)
          else (.error .notFound, s)
        else
          (.ok ⟨affected, false⟩,
            { s with labels := s.labels.mapIdx fun i row =>
                revokeRow (meant ids id workspaceId chain address i row) r.dbNow row })

def importBlocklist (s : LabelStore) (r : WriteRequest) (chain : String) (addresses : List String)
    (fault : Option Nat) (commitFault : Bool) : Except Refused UInt32 × LabelStore :=
  match writer tokenHash r with
  | .error e => (.error e, s)
  | .ok workspaceId =>
    match ChainKind.parse chain with
    | none => (.error .badRequest, s)
    | some chain =>
      match importBlocklistTx s workspaceId chain addresses fault commitFault with
      | (some imported, s) => (.ok imported, s)
      | (none, s) => (.error .internalServerError, s)

end

/-! ## The commands -/

/-- The commands that set a label. -/
inductive WalletAction where
  | block | flowOnly | watch
  deriving DecidableEq, Repr

def WalletAction.kind : WalletAction → String
  | .block => "manual_block"
  | .flowOnly => "manual_flow_only"
  | .watch => "manual_watch"

def WalletAction.disposition : WalletAction → Disposition
  | .block => .skip
  | .flowOnly => .flowOnly
  | .watch => .watch

/-! ## Events -/

/-- What writes a label: a request, a command, or a worker that classifies a wallet. -/
inductive LabelEvent where
  | add (r : WriteRequest) (chain address kind disposition : String) (walletFault labelFault : Bool)
  | revoke (r : WriteRequest) (chain address : String) (id : Int) (updateFault readFault : Bool)
  | importBlocklist (r : WriteRequest) (chain : String) (addresses : List String) (fault : Option Nat)
      (commitFault : Bool)
  | command (workspaceId : Int) (action : WalletAction) (chain : ChainKind) (address : String)
      (walletFault labelFault : Bool)
  | importCommand (workspaceId : Int) (chain : ChainKind) (addresses : List String) (fault : Option Nat)
      (commitFault : Bool)
  | unblock (workspaceId : Int) (chain : ChainKind) (address : String) (kind : Option String) (now : DateTime)
      (fault : Bool)
  | classify (workspaceId : Int) (chain : ChainKind) (address : String) (classification : BotClassification)
      (dbNow : DateTime)

section
variable (tokenHash : String → String) (ids : Nat → Int)

def handle (s : LabelStore) : LabelEvent → LabelStore
  | .add r chain address kind disposition walletFault labelFault =>
    (addLabel tokenHash s r chain address kind disposition walletFault labelFault).2
  | .revoke r chain address id updateFault readFault =>
    (revokeLabel tokenHash ids s r chain address id updateFault readFault).2
  | .importBlocklist r chain addresses fault commitFault =>
    (importBlocklist tokenHash s r chain addresses fault commitFault).2
  | .command workspaceId action chain address walletFault labelFault =>
    (setLabel s workspaceId chain address action.kind action.disposition walletFault labelFault).2
  | .importCommand workspaceId chain addresses fault commitFault =>
    (importBlocklistTx s workspaceId chain addresses fault commitFault).2
  | .unblock workspaceId chain address kind now fault =>
    if fault then s else revokeWalletLabel s workspaceId chain address kind now
  | .classify workspaceId chain address classification dbNow =>
    match applyAutomaticDisposition dbNow s workspaceId chain address classification with
    | .ok (_, s) => s
    | .error _ => s

def run (events : List LabelEvent) (s : LabelStore) : LabelStore := events.foldl (handle tokenHash ids) s

/-- The event writes for the workspace. -/
def LabelEvent.WritesFor (workspaceId : Int) : LabelEvent → Prop
  | .add r .. | .revoke r .. | .importBlocklist r .. => writer tokenHash r = .ok workspaceId
  | .command w .. | .importCommand w .. | .unblock w .. | .classify w .. => w = workspaceId

/-- The event means to revoke labels of the wallet in the workspace. -/
def LabelEvent.Revokes (workspaceId : Int) (chain : ChainKind) (address : String) : LabelEvent → Prop
  | .revoke r c a .. => writer tokenHash r = .ok workspaceId ∧ ChainKind.parse c = some chain ∧ a = address
  | .unblock w c a .. => w = workspaceId ∧ c = chain ∧ a = address
  | _ => False

end

/-! ## What one event does -/

/-- A label is left as it is, or revoked when it had not been. -/
def Kept (row row' : WalletLabel) : Prop :=
  row' = row ∨ (row.revokedAt = none ∧ ∃ now, row' = { row with revokedAt := some now })

/-- A label as it is written: in the vocabulary, and not revoked. -/
def Written (row : WalletLabel) : Prop := row.disposition ∈ vocabulary

section
variable {tokenHash : String → String} {ids : Nat → Int} {s t : LabelStore} {e : LabelEvent}
  {events : List LabelEvent} {row row' row'' : WalletLabel} {w : Int} {chain : ChainKind} {address : String}

theorem Kept.refl (row : WalletLabel) : Kept row row := Or.inl rfl

theorem Kept.trans (h : Kept row row') (h' : Kept row' row'') : Kept row row'' := by
  rcases h with rfl | ⟨hnone, now, rfl⟩
  · exact h'
  · rcases h' with rfl | ⟨hnone', -⟩
    · exact Or.inr ⟨hnone, now, rfl⟩
    · exact absurd hnone' (by simp)

theorem Kept.isOf (h : Kept row row') : row'.isOf w chain address = row.isOf w chain address := by
  rcases h with rfl | ⟨-, now, rfl⟩ <;> rfl

theorem Kept.disposition (h : Kept row row') : row'.disposition = row.disposition := by
  rcases h with rfl | ⟨-, now, rfl⟩ <;> rfl

theorem Kept.workspaceId (h : Kept row row') : row'.workspaceId = row.workspaceId := by
  rcases h with rfl | ⟨-, now, rfl⟩ <;> rfl

/-- A revocation stays as it was made. -/
theorem Kept.eq_of_revoked (h : Kept row row') (hrow : row.revokedAt ≠ none) : row' = row := by
  rcases h with rfl | ⟨hnone, -⟩
  · rfl
  · exact absurd hnone hrow

theorem kept_revokeRow (hit : Bool) (now : DateTime) (row : WalletLabel) :
    Kept row (revokeRow hit now row) ∧ (hit = false → revokeRow hit now row = row) := by
  rw [revokeRow]
  cases hit with
  | false => exact ⟨Kept.refl row, fun _ => rfl⟩
  | true =>
    refine ⟨?_, fun h => absurd h (by simp)⟩
    cases hrow : row.revokedAt with
    | none => exact Or.inr ⟨hrow, now, rfl⟩
    | some t => exact Or.inl rfl

theorem asStr_mem_vocabulary (d : Disposition) : d.asStr ∈ vocabulary := by
  cases d <;> decide

/-- The label that is set is the last one. -/
theorem addWalletLabel_ok {label : WalletLabel} (h : addWalletLabel s label = .ok t) :
    t.labels = s.labels ++ [label] := by
  rw [addWalletLabel] at h
  split at h
  · cases h
    rfl
  · cases h

theorem labels_upsertWallet : (upsertWallet s chain address).labels = s.labels := by
  rw [upsertWallet]
  split <;> rfl

theorem setLabel_cases (s : LabelStore) (w : Int) (chain : ChainKind) (address kind : String) (d : Disposition)
    (walletFault labelFault : Bool) :
    (setLabel s w chain address kind d walletFault labelFault).2.labels = s.labels ∨
      (setLabel s w chain address kind d walletFault labelFault).2.labels =
        s.labels ++ [manualLabel w chain address kind d] := by
  rw [setLabel]
  cases walletFault with
  | true => exact Or.inl rfl
  | false =>
    cases labelFault with
    | true => exact Or.inl labels_upsertWallet
    | false =>
      simp only [Bool.false_eq_true, if_false]
      split
      · exact Or.inl labels_upsertWallet
      · next t h =>
        have hwallet : (upsertWallet s chain address).labels = s.labels := labels_upsertWallet
        rw [← hwallet]
        exact Or.inr (addWalletLabel_ok h)

/-- The labels of a blocklist. -/
def blockLabels (w : Int) (chain : ChainKind) (lines : List String) : List WalletLabel :=
  (lines.filter listed).map fun line => manualLabel w chain (trim line) "manual_block" .skip

theorem importLoop_ok {lines : List String} {fault : Option Nat} {imported n : UInt32}
    (h : importLoop w chain lines fault imported s = .ok (n, t)) :
    n = imported + UInt32.ofNat (lines.filter listed).length ∧
      t.labels = s.labels ++ blockLabels w chain lines := by
  induction lines generalizing fault imported s with
  | nil =>
    cases h
    exact ⟨(UInt32.add_zero _).symm, by simp [blockLabels]⟩
  | cons line lines ih =>
    rw [importLoop] at h
    by_cases hlisted : listed line = true
    · rw [if_pos hlisted] at h
      split at h
      · cases h
      · split at h
        · cases h
        · next s' hadd =>
          obtain ⟨hn, hlabels⟩ := ih h
          rw [addWalletLabel_ok hadd, labels_upsertWallet] at hlabels
          rw [blockLabels, List.filter_cons_of_pos hlisted]
          refine ⟨?_, by simpa [blockLabels] using hlabels⟩
          rw [hn, List.length_cons, Nat.add_comm _ 1, UInt32.ofNat_add, UInt32.add_assoc]
          rfl
    · rw [if_neg hlisted] at h
      rw [blockLabels, List.filter_cons_of_neg hlisted]
      exact ih h

/-- A blocklist is imported as a whole or not at all. -/
theorem importBlocklistTx_cases (s : LabelStore) (w : Int) (chain : ChainKind) (lines : List String)
    (fault : Option Nat) (commitFault : Bool) :
    importBlocklistTx s w chain lines fault commitFault = (none, s) ∨
      ∃ t, importBlocklistTx s w chain lines fault commitFault =
          (some (UInt32.ofNat (lines.filter listed).length), t) ∧
        t.labels = s.labels ++ blockLabels w chain lines := by
  rw [importBlocklistTx]
  cases hloop : importLoop w chain lines fault 0 s with
  | error e => exact Or.inl rfl
  | ok p =>
    obtain ⟨n, t⟩ := p
    obtain ⟨rfl, hlabels⟩ := importLoop_ok hloop
    cases commitFault with
    | true => exact Or.inl rfl
    | false => exact Or.inr ⟨t, by rw [UInt32.zero_add]; rfl, hlabels⟩

/-- The label is kept, and revoked only where the event means it. -/
def KeptBy (tokenHash : String → String) (e : LabelEvent) (row row' : WalletLabel) : Prop :=
  row' = row ∨ (row.revokedAt = none ∧ (∃ now, row' = { row with revokedAt := some now }) ∧
    ∃ w chain address, row.isOf w chain address = true ∧ e.Revokes tokenHash w chain address)

/-- A label that the event writes. -/
def WrittenBy (tokenHash : String → String) (e : LabelEvent) (row : WalletLabel) : Prop :=
  row.disposition ∈ vocabulary ∧ e.WritesFor tokenHash row.workspaceId

theorem keptBy_revokeRow {hit : Bool} {now : DateTime} {c : ChainKind} {a : String}
    (h : hit = true → row.isOf w c a = true ∧ e.Revokes tokenHash w c a) :
    KeptBy tokenHash e row (revokeRow hit now row) := by
  cases hit with
  | false => exact Or.inl ((kept_revokeRow false now row).2 rfl)
  | true =>
    obtain ⟨hof, hrevokes⟩ := h rfl
    rcases (kept_revokeRow true now row).1 with heq | ⟨hnone, hset⟩
    · exact Or.inl heq
    · exact Or.inr ⟨hnone, hset, w, c, a, hof, hrevokes⟩

theorem grows_self : Grows (KeptBy tokenHash e) (WrittenBy tokenHash e) s.labels s.labels :=
  grows_refl fun _ => Or.inl rfl

theorem grows_added {added : List WalletLabel} (hlabels : t.labels = s.labels ++ added)
    (h : ∀ row ∈ added, WrittenBy tokenHash e row) :
    Grows (KeptBy tokenHash e) (WrittenBy tokenHash e) s.labels t.labels := by
  rw [hlabels]
  exact grows_append (fun row => (Or.inl rfl : KeptBy tokenHash e row row)) h

theorem setLabel_grows {kind : String} {d : Disposition} {walletFault labelFault : Bool}
    (h : e.WritesFor tokenHash w) :
    Grows (KeptBy tokenHash e) (WrittenBy tokenHash e) s.labels
      (setLabel s w chain address kind d walletFault labelFault).2.labels := by
  rcases setLabel_cases s w chain address kind d walletFault labelFault with hsame | hadded
  · rw [hsame]
    exact grows_self
  · apply grows_added hadded
    intro row hrow
    rw [List.mem_singleton.mp hrow]
    exact ⟨asStr_mem_vocabulary d, h⟩

theorem import_grows {lines : List String} {fault : Option Nat} {commitFault : Bool} (h : e.WritesFor tokenHash w) :
    Grows (KeptBy tokenHash e) (WrittenBy tokenHash e) s.labels
      (importBlocklistTx s w chain lines fault commitFault).2.labels := by
  rcases importBlocklistTx_cases s w chain lines fault commitFault with hsame | ⟨t, heq, hadded⟩
  · rw [hsame]
    exact grows_self
  · rw [heq]
    apply grows_added hadded
    intro row hrow
    obtain ⟨line, -, rfl⟩ := List.mem_map.mp hrow
    exact ⟨asStr_mem_vocabulary .skip, h⟩

/-- What the classification adds is one label, if anything. -/
theorem automatic_cases {dbNow : DateTime} {c : BotClassification} {d : Disposition}
    (h : applyAutomaticDisposition dbNow s w chain address c = .ok (d, t)) :
    t = s ∨ ∃ kind, t.labels = s.labels ++ [autoLabel w chain address kind] := by
  rw [applyAutomaticDisposition] at h
  obtain ⟨manual, -, h⟩ := Fallible.bind_eq_ok.mp h
  split at h
  · cases h
    exact Or.inl rfl
  · split at h
    · cases h
      exact Or.inl rfl
    · split at h
      · cases h
      · next kind _ =>
        obtain ⟨s', hadd, h⟩ := Fallible.bind_eq_ok.mp h
        cases h
        exact Or.inr ⟨kind, addWalletLabel_ok hadd⟩

/-- A request sets a label of its workspace, or none. -/
theorem addLabel_cases (tokenHash : String → String) (s : LabelStore) (r : WriteRequest)
    (chain address kind disposition : String) (walletFault labelFault : Bool) :
    (addLabel tokenHash s r chain address kind disposition walletFault labelFault).2 = s ∨
      ∃ w c d, writer tokenHash r = .ok w ∧ ChainKind.parse chain = some c ∧ Disposition.parse disposition = some d ∧
        (addLabel tokenHash s r chain address kind disposition walletFault labelFault).2 =
          (setLabel s w c address kind d walletFault labelFault).2 := by
  rw [addLabel]
  split
  · exact Or.inl rfl
  · next w hw =>
    split
    · exact Or.inl rfl
    · next c hc =>
      split
      · exact Or.inl rfl
      · next d hd =>
        refine Or.inr ⟨w, c, d, hw, hc, hd, ?_⟩
        split <;> next hset => rw [hset]

/-- A request revokes labels of the wallet in its workspace, or none. -/
theorem revokeLabel_cases (tokenHash : String → String) (ids : Nat → Int) (s : LabelStore) (r : WriteRequest)
    (chain address : String) (id : Int) (updateFault readFault : Bool) :
    (revokeLabel tokenHash ids s r chain address id updateFault readFault).2 = s ∨
      ∃ w c, writer tokenHash r = .ok w ∧ ChainKind.parse chain = some c ∧
        (revokeLabel tokenHash ids s r chain address id updateFault readFault).2 = { s with
          labels := s.labels.mapIdx fun i row => revokeRow (meant ids id w c address i row) r.dbNow row } := by
  rw [revokeLabel]
  split
  · exact Or.inl rfl
  · next w hw =>
    split
    · exact Or.inl rfl
    · next c hc =>
      cases updateFault with
      | true => exact Or.inl rfl
      | false =>
        simp only [Bool.false_eq_true, if_false]
        split
        · left
          cases readFault with
          | true => rfl
          | false =>
            simp only [Bool.false_eq_true, if_false]
            split <;> rfl
        · exact Or.inr ⟨w, c, hw, hc, rfl⟩

theorem importBlocklist_cases (tokenHash : String → String) (s : LabelStore) (r : WriteRequest) (chain : String)
    (addresses : List String) (fault : Option Nat) (commitFault : Bool) :
    (importBlocklist tokenHash s r chain addresses fault commitFault).2 = s ∨
      ∃ w c, writer tokenHash r = .ok w ∧ ChainKind.parse chain = some c ∧
        (importBlocklist tokenHash s r chain addresses fault commitFault).2 =
          (importBlocklistTx s w c addresses fault commitFault).2 := by
  rw [importBlocklist]
  split
  · exact Or.inl rfl
  · next w hw =>
    split
    · exact Or.inl rfl
    · next c hc =>
      refine Or.inr ⟨w, c, hw, hc, ?_⟩
      split <;> next htx => rw [htx]

/-- An event keeps the labels that are there, and what it writes is for its own workspace. -/
theorem handle_grows (s : LabelStore) (e : LabelEvent) :
    Grows (KeptBy tokenHash e) (WrittenBy tokenHash e) s.labels (handle tokenHash ids s e).labels := by
  cases e with
  | add r chain address kind disposition walletFault labelFault =>
    rw [handle]
    rcases addLabel_cases tokenHash s r chain address kind disposition walletFault labelFault with
      hsame | ⟨w, c, d, hw, -, -, hset⟩
    · rw [hsame]
      exact grows_self
    · rw [hset]
      exact setLabel_grows hw
  | revoke r chain address id updateFault readFault =>
    rw [handle]
    rcases revokeLabel_cases tokenHash ids s r chain address id updateFault readFault with
      hsame | ⟨w, c, hw, hc, hset⟩
    · rw [hsame]
      exact grows_self
    · rw [hset]
      apply grows_mapIdx
      intro i row
      apply keptBy_revokeRow (w := w) (c := c) (a := address)
      intro hhit
      rw [meant, Bool.and_eq_true] at hhit
      exact ⟨hhit.2, hw, hc, rfl⟩
  | importBlocklist r chain addresses fault commitFault =>
    rw [handle]
    rcases importBlocklist_cases tokenHash s r chain addresses fault commitFault with hsame | ⟨w, c, hw, -, hset⟩
    · rw [hsame]
      exact grows_self
    · rw [hset]
      exact import_grows hw
  | command w action chain address walletFault labelFault => exact setLabel_grows rfl
  | importCommand w chain addresses fault commitFault => exact import_grows rfl
  | unblock w chain address kind now fault =>
    rw [handle]
    cases fault with
    | true => exact grows_self
    | false =>
      simp only [Bool.false_eq_true, if_false, revokeWalletLabel]
      apply grows_map
      intro row
      apply keptBy_revokeRow (w := w) (c := chain) (a := address)
      intro hhit
      exact ⟨(Bool.and_eq_true _ _ ▸ hhit).1, rfl, rfl, rfl⟩
  | classify w chain address classification dbNow =>
    rw [handle]
    split
    · next hok =>
      rcases automatic_cases hok with rfl | ⟨kind, hadded⟩
      · exact grows_self
      · apply grows_added hadded
        intro row hrow
        rw [List.mem_singleton.mp hrow]
        exact ⟨show "skip" ∈ vocabulary by decide, rfl⟩
    · exact grows_self

/-! ## Runs -/

/-- A run lets the table grow as each of its events does. -/
theorem run_grows {keep : WalletLabel → WalletLabel → Prop} {fresh : WalletLabel → Prop} (hrefl : ∀ row, keep row row)
    (htrans : ∀ row row' row'', keep row row' → keep row' row'' → keep row row'')
    (hstable : ∀ row row', fresh row → keep row row' → fresh row')
    (hkeep : ∀ e ∈ events, ∀ row row', KeptBy tokenHash e row row' → keep row row')
    (hfresh : ∀ e ∈ events, ∀ row, WrittenBy tokenHash e row → fresh row) (s : LabelStore) :
    Grows keep fresh s.labels (run tokenHash ids events s).labels := by
  apply grows_foldl hrefl htrans hstable
  intro e he t
  exact grows_mono (handle_grows t e) (hkeep e he) (hfresh e he)

theorem KeptBy.kept (h : KeptBy tokenHash e row row') : Kept row row' := by
  rcases h with rfl | ⟨hnone, hset, -⟩
  · exact Kept.refl row'
  · exact Or.inr ⟨hnone, hset⟩

/-- No label is ever deleted, changed but by one revocation, or written outside of the vocabulary. -/
theorem labels_kept (events : List LabelEvent) (s : LabelStore) :
    Grows Kept Written s.labels (run tokenHash ids events s).labels := by
  apply run_grows Kept.refl (fun _ _ _ => Kept.trans) (fun row row' h hkept => ?_) (fun e _ row row' h => h.kept)
    (fun e _ row h => h.1)
  show row'.disposition ∈ vocabulary
  rw [hkept.disposition]
  exact h

theorem isOf_iff : row.isOf w chain address = true ↔
    row.workspaceId = w ∧ row.chain = chain.asStr ∧ row.address = address := by
  simp [LabelRow.isOf, and_assoc]

theorem LabelEvent.Revokes.writesFor (h : e.Revokes tokenHash w chain address) : e.WritesFor tokenHash w := by
  cases e with
  | revoke => exact h.1
  | unblock => exact h.1
  | add | importBlocklist | command | importCommand | classify => exact h.elim

/-- The labels of a workspace that nothing was written for are the same. -/
theorem labels_others (h : ∀ e ∈ events, ¬ e.WritesFor tokenHash w) (s : LabelStore) :
    (run tokenHash ids events s).labels.filter (fun row => row.workspaceId == w) =
      s.labels.filter fun row => row.workspaceId == w := by
  have hgrows : Grows (fun row row' => Kept row row' ∧ (row.workspaceId = w → row' = row))
      (fun row => row.workspaceId ≠ w) s.labels (run tokenHash ids events s).labels := by
    apply run_grows
    · exact fun row => ⟨Kept.refl row, fun _ => rfl⟩
    · rintro row row' row'' ⟨hkept, heq⟩ ⟨hkept', heq'⟩
      refine ⟨hkept.trans hkept', fun hw => ?_⟩
      rw [heq' (hkept.workspaceId.trans hw), heq hw]
    · intro row row' hne hkept
      rw [hkept.1.workspaceId]
      exact hne
    · intro e he row row' hkept
      refine ⟨hkept.kept, fun hw => ?_⟩
      rcases hkept with heq | ⟨-, -, w', chain, address, hof, hrevokes⟩
      · exact heq
      · have hwrites := hrevokes.writesFor
        rw [← (isOf_iff.mp hof).1, hw] at hwrites
        exact absurd hwrites (h e he)
    · intro e he row hwritten hw
      exact h e he (hw ▸ hwritten.2)
  apply filter_grows _ _ hgrows
  · intro row row' hkept
    rw [hkept.1.workspaceId]
    exact ⟨rfl, fun hw => hkept.2 (beq_iff_eq.mp hw)⟩
  · intro row hne
    exact beq_eq_false_iff_ne.mpr hne

/-- What other workspaces write changes no disposition. -/
theorem activeDisposition_others (h : ∀ e ∈ events, ¬ e.WritesFor tokenHash w) (s : LabelStore) (dbNow : DateTime)
    (chain : ChainKind) (address : String) :
    activeDisposition dbNow (run tokenHash ids events s).rows w chain address =
      activeDisposition dbNow s.rows w chain address := by
  have hrows : ∀ t : LabelStore, activeLabels dbNow t.rows w chain address =
      activeLabels dbNow ((t.labels.filter fun row => row.workspaceId == w).map WalletLabel.toLabelRow) w chain
        address := by
    intro t
    rw [LabelStore.rows, activeLabels, activeLabels, List.filter_map, List.filter_map, List.filter_filter]
    congr 1
    apply List.filter_congr
    intro row _
    simp only [Function.comp_apply, LabelRow.isOf]
    cases row.workspaceId == w <;> simp
  rw [activeDisposition_eq, activeDisposition_eq, hrows, hrows s, labels_others h]

/-- A request of the first workspace, in a session of its own. -/
def firstWriter : WriteRequest where
  toRequest := secondRequest
  sessions := ⟨fun hash => if hash = sha256Hex "second" then some ⟨seconds 86400, none, some 1⟩ else none, []⟩
  dbNow := seconds 7200

/-- Two workspaces and one wallet, without labels. -/
def unlabelled : LabelStore := ⟨[1, 2], [("solana", "W")], []⟩

/-- The first workspace watches the wallet and scores it, and the wallet is classified as a bot. -/
def labelling : List LabelEvent :=
  [.command 1 .watch .solana "W" false false, .add firstWriter "sol" "W" "note" "score" false false,
    .classify 1 .solana "W" (classifyBot [.mevBot] (.finite 1) 200) (seconds 7200)]

theorem activeDisposition_others_second :
    activeDisposition 0 (run sha256Hex Int.ofNat labelling unlabelled).rows 2 .solana "W" =
      activeDisposition 0 unlabelled.rows 2 .solana "W" := by
  apply activeDisposition_others
  intro e he
  simp only [labelling, List.mem_cons, List.not_mem_nil, or_false] at he
  rcases he with rfl | rfl | rfl
  · exact (by decide : ¬ (1 : Int) = 2)
  · exact (by decide : ¬ writer sha256Hex firstWriter = .ok 2)
  · exact (by decide : ¬ (1 : Int) = 2)

/-! ## Blocks -/

theorem ChainKind.asStr_injective {c c' : ChainKind} (h : c.asStr = c'.asStr) : c = c' := by
  have hparse := ChainKind.parse_asStr c
  rw [h, ChainKind.parse_asStr] at hparse
  exact (Option.some.inj hparse).symm

/-- A label of a wallet stays as it is while nobody revokes labels of that wallet in its workspace. -/
theorem label_stays (h : ∀ e ∈ events, ¬ e.Revokes tokenHash w chain address) (hof : row.isOf w chain address = true)
    (hrow : row ∈ s.labels) : row ∈ (run tokenHash ids events s).labels := by
  have hgrows : Grows (fun row row' => Kept row row' ∧ (row.isOf w chain address = true → row' = row))
      (fun _ => True) s.labels (run tokenHash ids events s).labels := by
    apply run_grows
    · exact fun row => ⟨Kept.refl row, fun _ => rfl⟩
    · rintro row row' row'' ⟨hkept, heq⟩ ⟨hkept', heq'⟩
      refine ⟨hkept.trans hkept', fun hof => ?_⟩
      rw [heq' (hkept.isOf.trans hof), heq hof]
    · exact fun _ _ _ _ => trivial
    · intro e he row row' hkept
      refine ⟨hkept.kept, fun hof => ?_⟩
      rcases hkept with heq | ⟨-, -, w', c', a', hof', hrevokes⟩
      · exact heq
      · obtain ⟨hw, hchain, haddress⟩ := isOf_iff.mp hof
        obtain ⟨hw', hchain', haddress'⟩ := isOf_iff.mp hof'
        obtain rfl : w' = w := hw'.symm.trans hw
        obtain rfl : a' = address := haddress'.symm.trans haddress
        obtain rfl : c' = chain := ChainKind.asStr_injective (hchain'.symm.trans hchain)
        exact absurd hrevokes (h e he)
    · exact fun _ _ _ _ => trivial
  obtain ⟨row', hmem, -, heq⟩ := mem_grows hgrows hrow
  rw [heq hof] at hmem
  exact hmem

/-- A manual block without an end decides, whatever other labels there are. -/
theorem effective_of_block (hknown : ∀ row ∈ s.labels, Written row)
    (hrow : manualLabel w chain address "manual_block" .skip ∈ s.labels) (dbNow : DateTime) (c : BotClassification) :
    effectiveDisposition dbNow s.rows w chain address = .ok .skip ∧
      applyAutomaticDisposition dbNow s w chain address c = .ok (.skip, s) := by
  have hactive : (manualLabel w chain address "manual_block" .skip).toLabelRow ∈
      activeLabels dbNow s.rows w chain address := by
    apply List.mem_filter.mpr
    refine ⟨List.mem_map_of_mem hrow, ?_⟩
    rw [Bool.and_eq_true, isOf_iff]
    exact ⟨⟨rfl, rfl, rfl⟩, rfl⟩
  have hrows : ∀ row ∈ activeLabels dbNow s.rows w chain address, row.disposition ∈ vocabulary := by
    intro row hrow
    obtain ⟨label, hlabel, rfl⟩ := List.mem_map.mp (List.mem_filter.mp hrow).1
    exact hknown label hlabel
  have heffective : effectiveDisposition dbNow s.rows w chain address = .ok .skip := by
    obtain ⟨d, hd⟩ : ∃ d, activeDisposition dbNow s.rows w chain address = .ok d := by
      cases hd : activeDisposition dbNow s.rows w chain address with
      | ok d => exact ⟨d, rfl⟩
      | error e =>
        obtain ⟨row, hrow, hunknown⟩ := activeDisposition_error.mp ⟨e, hd⟩
        exact absurd (hrows row hrow) hunknown
    obtain ⟨v, rfl, hle⟩ := restrictive_of_manual hactive rfl hd
    have hskip : v = "skip" := by
      have hzero : vocabulary.idxOf v = vocabulary.idxOf "skip" :=
        Nat.le_antisymm hle (by rw [show vocabulary.idxOf "skip" = 0 by decide]; omega)
      exact ((List.idxOf_inj (show "skip" ∈ vocabulary by decide)).mp hzero.symm).symm
    rw [effectiveDisposition, hd, hskip]
    rfl
  refine ⟨heffective, ?_⟩
  obtain ⟨d, happly, hd⟩ := automatic_manual (c := c) hrows ⟨_, hactive, rfl⟩
  rw [heffective] at hd
  rw [happly, Except.ok.inj hd]

/-- A list with a comment and two wallets. -/
def blocklist : List String := ["# bots", " W ", "", "V"]

section
variable {id : Int} {labels : List WalletLabel}

theorem meant_iff {i : Nat} : meant ids id w chain address i row = true ↔
    ids i = id ∧ row.isOf w chain address = true := by
  rw [meant, Bool.and_eq_true, beq_iff_eq]

theorem unaffected_iff :
    (labels.zipIdx.filter fun p => meant ids id w chain address p.2 p.1 && p.1.revokedAt.isNone).length = 0 ↔
      ∀ i row, labels[i]? = some row → meant ids id w chain address i row = true → row.revokedAt ≠ none := by
  rw [List.length_eq_zero_iff, List.filter_eq_nil_iff]
  constructor
  · intro h i row hrow hhit hnone
    exact h (row, i) (List.mk_mem_zipIdx_iff_getElem?.mpr hrow) (by simp [hhit, hnone])
  · rintro h ⟨row, i⟩ hmem
    simpa using h i row (List.mk_mem_zipIdx_iff_getElem?.mp hmem)

theorem already_iff :
    (labels.zipIdx.any fun p => meant ids id w chain address p.2 p.1 && p.1.revokedAt.isSome) = true ↔
      ∃ i row, labels[i]? = some row ∧ meant ids id w chain address i row = true ∧ row.revokedAt ≠ none := by
  rw [List.any_eq_true]
  constructor
  · rintro ⟨⟨row, i⟩, hmem, h⟩
    rw [Bool.and_eq_true, Option.isSome_iff_ne_none] at h
    exact ⟨i, row, List.mk_mem_zipIdx_iff_getElem?.mp hmem, h⟩
  · rintro ⟨i, row, hrow, hhit, hset⟩
    refine ⟨(row, i), List.mk_mem_zipIdx_iff_getElem?.mpr hrow, ?_⟩
    rw [Bool.and_eq_true, Option.isSome_iff_ne_none]
    exact ⟨hhit, hset⟩

end

/-- A revocation that is served has left a revoked label under its number. -/
theorem revoked_of_ok {r : WriteRequest} {c : String} {id : Int} {updateFault readFault : Bool} {x : Revoked}
    (hw : writer tokenHash r = .ok w) (hchain : ChainKind.parse c = some chain)
    (h : revokeLabel tokenHash ids s r c address id updateFault readFault = (.ok x, t)) :
    ∃ i row, t.labels[i]? = some row ∧ ids i = id ∧ row.isOf w chain address = true ∧ row.revokedAt ≠ none := by
  rw [revokeLabel, hw, hchain] at h
  dsimp only at h
  split at h
  · cases h
  split at h
  · split at h
    · cases h
    split at h
    · next halready =>
      cases h
      obtain ⟨i, row, hrow, hhit, hset⟩ := already_iff.mp halready
      exact ⟨i, row, hrow, (meant_iff.mp hhit).1, (meant_iff.mp hhit).2, hset⟩
    · cases h
  · next haffected =>
    rw [unaffected_iff] at haffected
    push Not at haffected
    obtain ⟨i, row, hrow, hhit, hnone⟩ := haffected
    cases h
    refine ⟨i, { row with revokedAt := some r.dbNow }, ?_, ?_⟩
    · rw [List.getElem?_mapIdx, hrow, Option.map_some, hhit, revokeRow, hnone]
      rfl
    · exact ⟨(meant_iff.mp hhit).1, (meant_iff.mp hhit).2, by simp⟩

/-- A revocation that was served is answered as done when it is sent again, whatever was written meanwhile, and changes
nothing: the time of the first one stays. -/
theorem revoke_replay (hids : Function.Injective ids) {r r' : WriteRequest} {c c' : String} {id : Int}
    {updateFault readFault : Bool} {x : Revoked} (hw : writer tokenHash r = .ok w)
    (hchain : ChainKind.parse c = some chain)
    (h : revokeLabel tokenHash ids s r c address id updateFault readFault = (.ok x, t))
    (hw' : writer tokenHash r' = .ok w) (hchain' : ChainKind.parse c' = some chain) (events : List LabelEvent) :
    revokeLabel tokenHash ids (run tokenHash ids events t) r' c' address id false false =
      (.ok ⟨0, true⟩, run tokenHash ids events t) := by
  obtain ⟨i, row, hrow, hid, hof, hset⟩ := revoked_of_ok hw hchain h
  have hgrows : Grows Kept Written t.labels (run tokenHash ids events t).labels := labels_kept events t
  obtain ⟨row', hrow', hkept⟩ := getElem?_grows hgrows hrow
  rw [hkept.eq_of_revoked hset] at hrow'
  rw [revokeLabel, hw', hchain']
  simp only [Bool.false_eq_true, if_false]
  rw [if_pos, if_pos]
  · exact already_iff.mpr ⟨i, row, hrow', meant_iff.mpr ⟨hid, hof⟩, hset⟩
  · apply unaffected_iff.mpr
    intro j other hother hhit
    obtain rfl : j = i := hids ((meant_iff.mp hhit).1.trans hid.symm)
    rw [hrow'] at hother
    rw [← Option.some.inj hother]
    exact hset

theorem revoke_replay_labelling :
    revokeLabel sha256Hex Int.ofNat (run sha256Hex Int.ofNat labelling
        (revokeLabel sha256Hex Int.ofNat (run sha256Hex Int.ofNat labelling unlabelled) firstWriter "solana" "W" 1
          false false).2) firstWriter "sol" "W" 1 false false =
      (.ok ⟨0, true⟩, run sha256Hex Int.ofNat labelling
        (revokeLabel sha256Hex Int.ofNat (run sha256Hex Int.ofNat labelling unlabelled) firstWriter "solana" "W" 1
          false false).2) :=
  revoke_replay (w := 1) (x := ⟨1, false⟩) (fun _ _ => Int.ofNat.inj) (by decide)
    (show ChainKind.parse "solana" = some .solana by decide)
    (show revokeLabel sha256Hex Int.ofNat (run sha256Hex Int.ofNat labelling unlabelled) firstWriter "solana" "W" 1
      false false = (.ok ⟨1, false⟩, (revokeLabel sha256Hex Int.ofNat (run sha256Hex Int.ofNat labelling unlabelled)
        firstWriter "solana" "W" 1 false false).2) by decide)
    (by decide) (show ChainKind.parse "sol" = some .solana by decide) labelling

end

end WhaleIntelligence.Labels
