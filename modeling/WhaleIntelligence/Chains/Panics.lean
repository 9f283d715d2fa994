import WhaleIntelligence.Chains.Blocks

/- Where the normalizers panic.

   Two things in a payload can make them: decimals above 28, whose power of ten no
   decimal holds, and a topic of 66 bytes whose byte 26 is inside a character. Indices
   whose sum with a million exceeds an `i32` are the third, for lists that long.

   A round of a loop that fails ends it, so a panic behind a transfer that is an error
   is not reached (`normalizeHelius_panic_iff`). A block has no such errors
   (`normalizeBlock_panic_iff`). -/
namespace WhaleIntelligence.Chains
open WhaleIntelligence Fallible

/-! ## A Solana transaction -/

section
variable (x : ChainCrates)

/-- The text of the amount and the decimals of a token transfer that passes the checks. -/
def admitted (transfer : Json) : Option (String × Nat) :=
  let sender := (transfer.strAt "fromUserAccount").getD ""
  let receiver := (transfer.strAt "toUserAccount").getD ""
  let mint := (transfer.strAt "mint").getD ""
  let rawAmount := ((transfer.get "tokenAmount").bind Json.asF64).or ((transfer.get "rawTokenAmount").bind Json.asF64)
  let decimals := decimalsOf ((transfer.get "decimals").or
    ((transfer.get "rawTokenAmount").bind fun r => r.get "decimals"))
  if sender.isEmpty || receiver.isEmpty || mint.isEmpty then none
  else if isErr (validateSolanaAddress x sender) || isErr (validateSolanaAddress x receiver) ||
      isErr (validateSolanaAddress x mint) then none
  else rawAmount.map fun amount => (formatAmountString x amount, decimals)

/-- The amount of the transfer is not a decimal. -/
def Refused (transfer : Json × Nat) : Prop :=
  ∃ p, admitted x transfer.1 = some p ∧ isErr (x.fromStrExact (trim p.1)) = true

/-- The amount of the transfer is a decimal, and its decimals or its index are too large. -/
def Overflows (transfer : Json × Nat) : Prop :=
  ∃ p, admitted x transfer.1 = some p ∧ isErr (x.fromStrExact (trim p.1)) = false ∧
    (28 < p.2 ∨ laterIndex transfer.2 = none)

end

section
variable {x : ChainCrates} {o : Observation}

theorem asU64_lt {v : Json} {n : Nat} (h : v.asU64 = some n) : n < 2 ^ 64 := by
  unfold Json.asU64 at h
  split at h
  · split at h
    · rename_i hrange
      obtain rfl := Option.some.inj h
      omega
    · cases h
  · cases h

/-- A transfer of lamports is never an error. -/
theorem nativeTransfer_ok (index : Nat) (transfer : Json) : ∃ t, nativeTransfer x o index transfer = .ok t := by
  unfold nativeTransfer
  cases transfer.strAt "fromUserAccount" with
  | none => exact ⟨_, rfl⟩
  | some sender =>
    cases transfer.strAt "toUserAccount" with
    | none => exact ⟨_, rfl⟩
    | some receiver =>
      cases hamount : (transfer.get "amount").bind Json.asU64 with
      | none => exact ⟨_, rfl⟩
      | some lamports =>
        obtain ⟨v, -, hv⟩ := Option.bind_eq_some_iff.mp hamount
        obtain ⟨d, hd⟩ := lamportsToSol_isSome (asU64_lt hv)
        dsimp only
        split
        · exact ⟨_, rfl⟩
        · split
          · exact ⟨_, rfl⟩
          · rw [hd]
            exact ⟨_, rfl⟩

theorem tokenTransfer_none {offset : Nat} {transfer : Json} (h : admitted x transfer = none) :
    tokenTransfer x o offset transfer = .ok none := by
  rw [admitted] at h
  rw [tokenTransfer]
  dsimp only at h ⊢
  split at h
  · rename_i hempty
    rw [if_pos hempty]
    rfl
  · rename_i hempty
    split at h
    · rename_i hinvalid
      rw [if_neg hempty, if_pos hinvalid]
      rfl
    · rename_i hinvalid
      rw [if_neg hempty, if_neg hinvalid]
      rw [Option.map_eq_none_iff] at h
      rw [h]
      rfl

theorem tokenTransfer_some (o : Observation) (offset : Nat) {transfer : Json} {p : String × Nat}
    (h : admitted x transfer = some p) :
    ∃ t : Decimal → Int → NormalizedTransfer, tokenTransfer x o offset transfer = (do
      let amount ← rawTokenToAmount x p.1 p.2
      let eventIndex ← orPanic (laterIndex offset)
      return some (t amount eventIndex)) ∧
    ∀ amount eventIndex, (t amount eventIndex).signature = o.signature ∧
      (t amount eventIndex).eventIndex = eventIndex ∧
      (t amount eventIndex).fromAddress = (transfer.strAt "fromUserAccount").getD "" ∧
      (t amount eventIndex).toAddress = (transfer.strAt "toUserAccount").getD "" := by
  rw [admitted] at h
  rw [tokenTransfer]
  dsimp only at h ⊢
  split at h
  · cases h
  · rename_i hempty
    split at h
    · cases h
    · rename_i hinvalid
      obtain ⟨amount, hamount, rfl⟩ := Option.map_eq_some_iff.mp h
      rw [if_neg hempty, if_neg hinvalid, hamount]
      exact ⟨fun amount eventIndex => _, rfl, fun _ _ => ⟨rfl, rfl, rfl, rfl⟩⟩

/-- How a token transfer ends. -/
theorem tokenTransfer_cases (o : Observation) (transfer : Json × Nat) :
    (Refused x transfer ∧ ¬ Overflows x transfer ∧ ∃ e, tokenTransfer x o transfer.2 transfer.1 = .error (.error e)) ∨
    (Overflows x transfer ∧ tokenTransfer x o transfer.2 transfer.1 = .error .panic) ∨
    (¬ Refused x transfer ∧ ¬ Overflows x transfer ∧ ∃ t, tokenTransfer x o transfer.2 transfer.1 = .ok t) := by
  cases h : admitted x transfer.1 with
  | none =>
    right; right
    refine ⟨fun hr => ?_, fun ho => ?_, none, tokenTransfer_none h⟩
    · obtain ⟨p, hp, -⟩ := hr
      rw [h] at hp
      cases hp
    · obtain ⟨p, hp, -⟩ := ho
      rw [h] at hp
      cases hp
  | some p =>
    obtain ⟨t, ht, -⟩ := tokenTransfer_some o transfer.2 h
    have hrefused : Refused x transfer ↔ isErr (x.fromStrExact (trim p.1)) = true := by
      simp only [Refused, h, Option.some.injEq, exists_eq_left']
    have hoverflows : Overflows x transfer ↔ isErr (x.fromStrExact (trim p.1)) = false ∧
        (28 < p.2 ∨ laterIndex transfer.2 = none) := by
      simp only [Overflows, h, Option.some.injEq, exists_eq_left']
    rw [ht, hrefused, hoverflows]
    obtain ⟨herr, e, he⟩ | ⟨herr, hlarge, he⟩ | ⟨herr, hle, d, hd⟩ := rawTokenToAmount_cases x p.1 p.2
    · left
      rw [he, herr]
      exact ⟨rfl, fun ho => (by cases ho.1), e, rfl⟩
    · right; left
      rw [he]
      exact ⟨⟨herr, Or.inl hlarge⟩, rfl⟩
    · rw [hd, ok_bind]
      cases hindex : laterIndex transfer.2 with
      | none => exact Or.inr (Or.inl ⟨⟨herr, Or.inr rfl⟩, rfl⟩)
      | some index =>
        right; right
        refine ⟨by rw [herr]; decide, fun ho => ?_, _, rfl⟩
        rcases ho.2 with hlarge | hnone
        · omega
        · cases hnone

/-! ## The trades of a transaction -/

/-- The token leg of a trade has a text that is a decimal, and its decimals are too large. -/
def LegOverflows (x : ChainCrates) (leg : Json) : Prop :=
  (leg.strAt "mint").isSome ∧ 28 < decimalsOf ((leg.get "rawTokenAmount").bind fun r => r.get "decimals") ∧
    ∃ rawToken, ((leg.get "rawTokenAmount").bind fun r => r.strAt "tokenAmount") = some rawToken ∧
      isErr (x.fromStrExact (trim rawToken)) = false

/-- The wallet of a trade is a Solana address. -/
def walletValid (x : ChainCrates) (wallet : String) : Bool :=
  !(wallet.isEmpty || isErr (validateSolanaAddress x wallet))

/-- A token leg makes a trade with a native amount: it has a mint and an amount, and both
amounts are decimals. -/
def legTrades (x : ChainCrates) (nativeRaw : String) (leg : Json) : Bool :=
  (leg.strAt "mint").isSome &&
    (((leg.get "rawTokenAmount").bind fun r => r.strAt "tokenAmount").any fun rawToken =>
      !isErr (x.fromStrExact (trim rawToken)) && !isErr (x.fromStrExact (trim nativeRaw)))

section
variable {x : ChainCrates} {wallet signature nativeRaw : String} {side : TradeSide} {tokenLeg : Option Json}
  {dex : Option String} {slot : Option Nat} {blockTime : Option DateTime} {observedAt : DateTime}

/-- How a trade ends: there is none, its leg overflows, or it is made, with the index zero. -/
theorem buildTrade_cases {r : Except (Abort String) (Option NormalizedTrade)}
    (h : buildTrade x signature wallet side nativeRaw tokenLeg dex slot blockTime observedAt = r) :
    ((walletValid x wallet && tokenLeg.any (legTrades x nativeRaw)) = false ∧
      (walletValid x wallet = true → ∀ leg ∈ tokenLeg, ¬ LegOverflows x leg) ∧ r = .ok none) ∨
    (walletValid x wallet = true ∧ (∃ leg ∈ tokenLeg, LegOverflows x leg) ∧ r = .error .panic) ∨
    ((walletValid x wallet && tokenLeg.any (legTrades x nativeRaw)) = true ∧
      (∀ leg ∈ tokenLeg, ¬ LegOverflows x leg) ∧
      ∃ t, r = .ok (some t) ∧ t.signature = signature ∧ t.eventIndex = 0 ∧ t.wallet = wallet) := by
  unfold buildTrade at h
  rw [walletValid]
  cases hwallet : wallet.isEmpty || isErr (validateSolanaAddress x wallet) with
  | true =>
    rw [hwallet, if_pos rfl] at h
    exact Or.inl ⟨rfl, (by cases ·), h.symm⟩
  | false =>
    rw [hwallet, if_neg Bool.false_ne_true] at h
    rw [Bool.not_false, Bool.true_and]
    cases tokenLeg with
    | none => exact Or.inl ⟨rfl, fun _ _ hleg => (by cases hleg), h.symm⟩
    | some leg =>
      simp only [Option.any_some, Option.mem_some_iff, forall_eq', exists_eq_left', legTrades, LegOverflows]
      dsimp only at h
      cases hmint : leg.strAt "mint" with
      | none =>
        rw [hmint] at h
        exact Or.inl ⟨rfl, by simp, h.symm⟩
      | some mint =>
        cases hraw : (leg.get "rawTokenAmount").bind fun r => r.strAt "tokenAmount" with
        | none =>
          rw [hmint, hraw] at h
          exact Or.inl ⟨rfl, by simp, h.symm⟩
        | some rawToken =>
          rw [hmint, hraw] at h
          simp only [Option.isSome_some, Bool.true_and, Option.any_some, true_and, Option.some.injEq, exists_eq_left']
          dsimp only at h
          generalize decimalsOf ((leg.get "rawTokenAmount").bind fun r => r.get "decimals") = decimals at h ⊢
          obtain ⟨herr, e, he⟩ | ⟨herr, hlarge, he⟩ | ⟨herr, hle, d, hd⟩ := rawTokenToAmount_cases x rawToken decimals
          · rw [he] at h
            rw [herr]
            exact Or.inl ⟨rfl, by simp, h.symm⟩
          · rw [he] at h
            rw [herr]
            exact Or.inr (Or.inl ⟨⟨hlarge, rfl⟩, h.symm⟩)
          · rw [hd] at h
            rw [herr]
            obtain ⟨herr', e, he⟩ | ⟨-, hlarge, -⟩ | ⟨herr', -, d', hd'⟩ := rawTokenToAmount_cases x nativeRaw 9
            · rw [he] at h
              rw [herr']
              exact Or.inl ⟨rfl, fun _ ho => absurd ho.1 (by omega), h.symm⟩
            · omega
            · rw [hd'] at h
              rw [herr']
              exact Or.inr (Or.inr ⟨rfl, fun ho => absurd ho.1 (by omega), _, h.symm, rfl, rfl, rfl⟩)

theorem buildTrade_panic_iff :
    FailsIff (buildTrade x signature wallet side nativeRaw tokenLeg dex slot blockTime observedAt) .panic
      (walletValid x wallet = true ∧ ∃ leg, tokenLeg = some leg ∧ LegOverflows x leg) := by
  obtain ⟨-, hno, heq⟩ | ⟨hvalid, hleg, heq⟩ | ⟨-, hno, t, heq, -⟩ := buildTrade_cases rfl
  · rw [heq]
    exact FailsIff.of_ok none fun ⟨hvalid, leg, hleg, ho⟩ => hno hvalid leg hleg ho
  · rw [heq]
    -- the only way out with a panic
    exact FailsIff.of_error ⟨hvalid, hleg⟩
  · rw [heq]
    exact FailsIff.of_ok (some t) fun ⟨_, leg, hleg, ho⟩ => hno leg hleg ho

end

/-- The first token legs of the two sides of the swap of a payload. -/
def swapLegs (raw : Json) : List Json :=
  match swapOf raw with
  | none => []
  | some swap =>
    let leg (native tokens : String) : Option Json :=
      ((swap.get native).bind fun n => n.strAt "amount").bind fun _ => (swap.arrayAt tokens).bind List.head?
    (leg "nativeInput" "tokenOutputs").toList ++ (leg "nativeOutput" "tokenInputs").toList

theorem swapTrades_panic_iff (x : ChainCrates) (o : Observation) (raw : Json) :
    FailsIff (swapTrades x o raw) .panic
      (walletValid x ((raw.strAt "feePayer").getD "") = true ∧ ∃ leg ∈ swapLegs raw, LegOverflows x leg) := by
  rw [swapTrades, swapLegs]
  cases swapOf raw with
  | none =>
    refine FailsIff.of_ok [] fun h => ?_
    obtain ⟨-, leg, hleg, -⟩ := h
    exact absurd hleg List.not_mem_nil
  | some swap =>
    have hside : ∀ (side : TradeSide) (native : Option String) (tokens : Option (List Json)),
        FailsIff (swapTrade x o raw side native tokens) .panic (walletValid x ((raw.strAt "feePayer").getD "") = true ∧
          ∃ leg, (native.bind fun _ => tokens.bind List.head?) = some leg ∧ LegOverflows x leg) := by
      intro side native tokens
      unfold swapTrade
      cases native with
      | none => exact FailsIff.of_ok none (by simp)
      | some native =>
        cases tokens with
        | none => exact FailsIff.of_ok none (by simp)
        | some tokens => exact buildTrade_panic_iff
    have hlegs : ∀ {w : Prop} {a b : Option Json}, (w ∧ ∃ leg, a = some leg ∧ LegOverflows x leg) ∨
        (w ∧ ∃ leg, b = some leg ∧ LegOverflows x leg) ↔ w ∧ ∃ leg ∈ a.toList ++ b.toList, LegOverflows x leg := by
      intro w a b
      simp only [List.mem_append, Option.mem_toList, or_and_right, exists_or, and_or_left]
    -- what is collected once both sides are built is never a panic
    exact ((hside .buy _ _).bind fun buy => (hside .sell _ _).bind_ok _).congr hlegs

/-! ## The payload -/

/-- The token transfers of a payload with their indices. -/
def tokenTransfers (raw : Json) : List (Json × Nat) := ((raw.arrayAt "tokenTransfers").getD []).zipIdx

/-- The first token transfer that is refused or overflows is refused, and where there
is none no token leg of a trade overflows. -/
structure HeliusSafe (x : ChainCrates) (raw : Json) : Prop where
  transfers : ∀ pre transfer post, tokenTransfers raw = pre ++ transfer :: post →
    (∀ p ∈ pre, ¬ Refused x p ∧ ¬ Overflows x p) → ¬ Overflows x transfer
  trades : (∀ p ∈ tokenTransfers raw, ¬ Refused x p ∧ ¬ Overflows x p) →
    walletValid x ((raw.strAt "feePayer").getD "") = true → ∀ leg ∈ swapLegs raw, ¬ LegOverflows x leg

theorem tokenTransfer_ok_iff (o : Observation) (transfer : Json × Nat) :
    (∃ t, tokenTransfer x o transfer.2 transfer.1 = .ok t) ↔ ¬ Refused x transfer ∧ ¬ Overflows x transfer := by
  obtain ⟨hr, -, e, he⟩ | ⟨ho, he⟩ | ⟨hr, ho, t, ht⟩ := tokenTransfer_cases o transfer
  · rw [he]
    exact ⟨fun h => (by obtain ⟨t, ht⟩ := h; cases ht), fun h => absurd hr h.1⟩
  · rw [he]
    exact ⟨fun h => (by obtain ⟨t, ht⟩ := h; cases ht), fun h => absurd ho h.2⟩
  · exact ⟨fun _ => ⟨hr, ho⟩, fun _ => ⟨t, ht⟩⟩

theorem tokenTransfer_panic_iff (o : Observation) (transfer : Json × Nat) :
    tokenTransfer x o transfer.2 transfer.1 = .error .panic ↔ Overflows x transfer := by
  obtain ⟨-, ho, e, he⟩ | ⟨ho, he⟩ | ⟨-, ho, t, ht⟩ := tokenTransfer_cases o transfer
  · rw [he]
    exact ⟨fun h => (by cases h), fun h => absurd h ho⟩
  · exact ⟨fun _ => ho, fun _ => he⟩
  · rw [ht]
    exact ⟨fun h => (by cases h), fun h => absurd h ho⟩

variable (x) in
/-- The loop over the token transfers panics at the first one that is an error or a panic. -/
theorem tokenTransfers_panic_iff (o : Observation) (transfers : List (Json × Nat)) :
    transfers.mapM (fun p => tokenTransfer x o p.2 p.1) = .error .panic ↔ ∃ pre transfer post,
      transfers = pre ++ transfer :: post ∧ (∀ p ∈ pre, ¬ Refused x p ∧ ¬ Overflows x p) ∧ Overflows x transfer := by
  rw [mapM_error_iff]
  simp only [tokenTransfer_ok_iff, tokenTransfer_panic_iff]

theorem normalizeHelius_panic_iff (x : ChainCrates) (raw : Json) (observedAt : DateTime) :
    normalizeHeliusTransaction x raw observedAt ≠ .error .panic ↔ ((signatureOf raw).isSome → HeliusSafe x raw) := by
  unfold normalizeHeliusTransaction
  cases signatureOf raw with
  | none => exact ⟨fun _ h => (by cases h), fun _ h => (by cases h)⟩
  | some signature =>
    dsimp only
    generalize ({ signature, slot := _, blockTime := _, observedAt, commitment := _ } : Observation) = o
    have hnative : ∀ p ∈ ((raw.arrayAt "nativeTransfers").getD []).zipIdx, ∃ t, nativeTransfer x o p.2 p.1 = .ok t :=
      fun p _ => nativeTransfer_ok p.2 p.1
    obtain ⟨natives, hnatives⟩ := mapM_ok_of_forall hnative
    rw [hnatives, ok_bind, ← tokenTransfers]
    cases htokens : (tokenTransfers raw).mapM fun p => tokenTransfer x o p.2 p.1 with
    | error e =>
      -- the first error is a panic or none
      have hsome : ¬ ∀ p ∈ tokenTransfers raw, ¬ Refused x p ∧ ¬ Overflows x p := by
        intro hall
        obtain ⟨ts, hts⟩ := mapM_ok_of_forall fun p hp => (tokenTransfer_ok_iff o p).mpr (hall p hp)
        rw [htokens] at hts
        cases hts
      have hpanic := tokenTransfers_panic_iff x o (tokenTransfers raw)
      rw [htokens] at hpanic
      rw [error_bind]
      refine ⟨fun h _ => ⟨fun pre transfer post hsplit hpre hover => h ?_, fun hall => absurd hall hsome⟩,
        fun h he => ?_⟩
      · obtain rfl : e = .panic := Except.error.inj (hpanic.mpr ⟨pre, transfer, post, hsplit, hpre, hover⟩)
        rfl
      · obtain rfl : e = .panic := Except.error.inj he
        obtain ⟨pre, transfer, post, hsplit, hpre, hover⟩ := hpanic.mp rfl
        exact (h rfl).transfers pre transfer post hsplit hpre hover
    | ok tokens =>
      have hall : ∀ p ∈ tokenTransfers raw, ¬ Refused x p ∧ ¬ Overflows x p :=
        fun p hp => (tokenTransfer_ok_iff o p).mp (forall_ok_of_mapM htokens p hp)
      have hnone : ∀ pre transfer post, tokenTransfers raw = pre ++ transfer :: post →
          (∀ p ∈ pre, ¬ Refused x p ∧ ¬ Overflows x p) → ¬ Overflows x transfer :=
        fun pre transfer post hsplit _ => (hall transfer (by simp [hsplit])).2
      obtain ⟨hpanic, honly⟩ := swapTrades_panic_iff x o raw
      rw [ok_bind]
      cases hswap : swapTrades x o raw with
      | error e =>
        obtain rfl := honly e hswap
        obtain ⟨hwallet, leg, hleg, hover⟩ := hpanic.mp hswap
        exact ⟨fun h => absurd rfl h, fun h => absurd hover ((h rfl).trades hall hwallet leg hleg)⟩
      | ok trades =>
        refine ⟨fun _ _ => ⟨hnone, fun _ hwallet leg hleg hover => ?_⟩, fun _ h => (by cases h)⟩
        rw [hpanic.mpr ⟨hwallet, leg, hleg, hover⟩] at hswap
        cases hswap

/-! ## A block -/

/-- A topic of 66 bytes that cannot be cut before its last forty. -/
def CutTopic (topic : String) : Prop := byteLen topic.toList = 66 ∧ splitAtByte topic.toList 26 = none

instance (topic : String) : Decidable (CutTopic topic) := inferInstanceAs (Decidable (_ ∧ _))

/-- The value that a log transfers. -/
def logValue (log : Json) : Nat := (parseHexQuantity ((log.strAt "data").getD "0x0")).getD 0

/-- A log of the ERC-20 topic with a topic that cannot be cut, or with a transfer
whose index is too large. -/
def LogPanics (log : String × Json × Nat) : Prop :=
  ∃ t0 t1 t2 rest, log.2.1.arrayAt "topics" = some (t0 :: t1 :: t2 :: rest) ∧
    toAsciiLowercase (t0.asStr.getD "") = ERC20_TRANSFER_TOPIC ∧
    (CutTopic (t1.asStr.getD "") ∨ ∃ sender, decodeTopicAddress (t1.asStr.getD "") = .ok (some sender) ∧
      (CutTopic (t2.asStr.getD "") ∨ ∃ receiver, decodeTopicAddress (t2.asStr.getD "") = .ok (some receiver) ∧
        logValue log.2.1 ≠ 0 ∧ textAt log.2.1 "address" ≠ "" ∧ laterIndex log.2.2 = none))

theorem decodeTopicAddress_cases (topic : String) :
    (CutTopic topic ∧ decodeTopicAddress topic = .error .panic) ∨
    (¬ CutTopic topic ∧ ∃ address, decodeTopicAddress topic = .ok address) := by
  rw [decodeTopicAddress, CutTopic]
  split
  · rename_i hlen
    exact Or.inr ⟨fun h => hlen h.1, none, rfl⟩
  · rename_i hlen
    split
    · rename_i hcut
      exact Or.inl ⟨⟨not_not.mp hlen, hcut⟩, rfl⟩
    · rename_i hcut
      refine Or.inr ⟨fun h => ?_, ?_⟩
      · rw [h.2] at hcut
        cases hcut
      · split
        · exact ⟨_, rfl⟩
        · exact ⟨_, rfl⟩

section
variable {slot : Nat} {blockTime : Option DateTime} {observedAt : DateTime}

theorem logPanics_iff {log : String × Json × Nat} {t0 t1 t2 : Json} {rest : List Json}
    (htopics : log.2.1.arrayAt "topics" = some (t0 :: t1 :: t2 :: rest)) :
    LogPanics log ↔ toAsciiLowercase (t0.asStr.getD "") = ERC20_TRANSFER_TOPIC ∧
    (CutTopic (t1.asStr.getD "") ∨ ∃ sender, decodeTopicAddress (t1.asStr.getD "") = .ok (some sender) ∧
      (CutTopic (t2.asStr.getD "") ∨ ∃ receiver, decodeTopicAddress (t2.asStr.getD "") = .ok (some receiver) ∧
        logValue log.2.1 ≠ 0 ∧ textAt log.2.1 "address" ≠ "" ∧ laterIndex log.2.2 = none)) := by
  refine ⟨fun h => ?_, fun h => ⟨t0, t1, t2, rest, htopics, h⟩⟩
  obtain ⟨s0, s1, s2, rest', htopics', h⟩ := h
  rw [htopics, Option.some.injEq] at htopics'
  obtain ⟨rfl, rfl, rfl, -⟩ : t0 = s0 ∧ t1 = s1 ∧ t2 = s2 ∧ rest = rest' := by simpa using htopics'
  exact h

theorem isEmpty_toAsciiLowercase {s : String} : (toAsciiLowercase s).isEmpty = true ↔ s = "" := by
  rw [String.isEmpty_iff, ← String.toList_inj, ← String.toList_inj, toAsciiLowercase, String.toList_ofList]
  simp

theorem logValue_lt (log : Json) : logValue log < 2 ^ 64 := quantityOrZero_lt _

/-- A topic that can be cut goes on with its address. -/
theorem topic_panics_iff {topic : String} {address : Option String} {P : String → Prop} (hcut : ¬ CutTopic topic)
    (hd : decodeTopicAddress topic = .ok address) :
    (CutTopic topic ∨ ∃ a, decodeTopicAddress topic = .ok (some a) ∧ P a) ↔ ∃ a ∈ address, P a := by
  rw [or_iff_right hcut, hd]
  simp

/-- A log panics whatever was pushed before it. -/
theorem pushErc20_panic_iff (hash : String) (st : Seen) (log : Json × Nat) :
    FailsIff (pushErc20 slot blockTime observedAt hash st log) .panic (LogPanics (hash, log)) := by
  rw [pushErc20]
  split
  · rename_i t0 t1 t2 rest htopics
    rw [logPanics_iff htopics]
    dsimp only
    rw [← logValue]
    split
    · rename_i htopic
      exact FailsIff.of_ok st fun h => htopic h.1
    · rename_i htopic
      rw [not_not] at htopic
      obtain ⟨hcut, hd⟩ | ⟨hcut, sender, hd⟩ := decodeTopicAddress_cases (t1.asStr.getD "")
      · rw [hd, error_bind]
        exact FailsIff.of_error ⟨htopic, Or.inl hcut⟩
      · rw [topic_panics_iff hcut hd, hd, ok_bind]
        cases sender with
        | none =>
          refine FailsIff.of_ok st ?_
          rintro ⟨-, a, ha, -⟩
          exact Option.not_mem_none a ha
        | some sender =>
          obtain ⟨hcut', hd'⟩ | ⟨hcut', receiver, hd'⟩ := decodeTopicAddress_cases (t2.asStr.getD "")
          · dsimp only
            rw [hd', error_bind]
            exact FailsIff.of_error ⟨htopic, sender, rfl, Or.inl hcut'⟩
          · dsimp only
            rw [topic_panics_iff hcut' hd', hd', ok_bind]
            cases receiver with
            | none =>
              refine FailsIff.of_ok st ?_
              rintro ⟨-, -, -, a, ha, -⟩
              exact Option.not_mem_none a ha
            | some receiver =>
              have hempty : (logValue log.1 == 0 || (toAsciiLowercase (textAt log.1 "address")).isEmpty) = true ↔
                  logValue log.1 = 0 ∨ textAt log.1 "address" = "" := by
                rw [Bool.or_eq_true, beq_iff_eq, isEmpty_toAsciiLowercase]
              dsimp only
              by_cases hvalue : logValue log.1 = 0 ∨ textAt log.1 "address" = ""
              · rw [if_pos (hempty.mpr hvalue)]
                refine FailsIff.of_ok st ?_
                rintro ⟨-, -, -, -, -, hne, hmint, -⟩
                exact hvalue.elim hne hmint
              · rw [if_neg fun h => hvalue (hempty.mp h)]
                rw [not_or] at hvalue
                cases laterIndex log.2 with
                | none =>
                  rw [orPanic, error_bind]
                  exact FailsIff.of_error ⟨htopic, sender, rfl, receiver, rfl, hvalue.1, hvalue.2, rfl⟩
                | some index =>
                  rw [orPanic, ok_bind]
                  refine FailsIff.of_isOk (pushNew_ok st (logValue_lt log.1) fun d => rfl) ?_
                  rintro ⟨_, _, _, _, _, _, _, h⟩
                  cases h
  · rename_i htopics
    refine FailsIff.of_ok st fun h => ?_
    obtain ⟨t0, t1, t2, rest, h, -⟩ := h
    exact htopics t0 t1 t2 rest h

theorem erc20Of_panic_iff (log : String × Json × Nat) :
    FailsIff (erc20Of slot blockTime observedAt log) .panic (LogPanics log) := by
  rw [erc20Of, added]
  exact (pushErc20_panic_iff log.1 ([], []) log.2).map _

/-- A transaction is never an error. -/
theorem nativeOf_ok (tx : Json) : ∃ o, nativeOf slot blockTime observedAt tx = .ok o := by
  have hv := quantityOrZero_lt ((tx.strAt "value").getD "0x0")
  have hpush : ∃ st, pushNative slot blockTime observedAt ([], []) tx = .ok st := by
    rw [pushNative]
    split
    · exact ⟨_, rfl⟩
    · split
      · exact ⟨_, rfl⟩
      · exact pushNew_ok ([], []) hv fun d => rfl
  obtain ⟨st, hst⟩ := hpush
  exact ⟨_, by rw [nativeOf, hst]; rfl⟩

end

/-- A block without a number is an error. -/
theorem normalizeBlock_none (x : ChainCrates) {block : Json} (receipts : List Json) (observedAt : DateTime)
    (h : blockNumber block = none) :
    normalizeBlock x block receipts observedAt = .error (.error "block missing number") := by
  rw [normalizeBlock, h]

theorem normalizeBlock_panic_iff (x : ChainCrates) (block : Json) (receipts : List Json) (observedAt : DateTime) :
    normalizeBlock x block receipts observedAt ≠ .error .panic ↔
      ((blockNumber block).isSome → ∀ log ∈ logsOf receipts, ¬ LogPanics log) := by
  cases hnumber : blockNumber block with
  | none =>
    rw [normalizeBlock_none x receipts observedAt hnumber]
    exact ⟨fun _ h => (by cases h), fun _ h => (by cases h)⟩
  | some slot =>
    have hnative : ∀ tx ∈ (block.arrayAt "transactions").getD [],
        ∃ o, nativeOf slot (timeOf x block) observedAt tx = .ok o := fun tx _ => nativeOf_ok tx
    obtain ⟨natives, hnatives⟩ := mapM_ok_of_forall hnative
    have hlogs : FailsIff ((logsOf receipts).mapM (erc20Of slot (timeOf x block) observedAt)) .panic
        (∃ log ∈ logsOf receipts, LogPanics log) := FailsIff.mapM erc20Of_panic_iff (logsOf receipts)
    rw [normalizeBlock_eq x block receipts hnumber, hnatives, ok_bind]
    refine (not_congr (hlogs.bind_ok _).fails).trans ?_
    refine ⟨fun h _ log hmem hpanic => h ⟨log, hmem, hpanic⟩, fun h hlog => ?_⟩
    obtain ⟨log, hmem, hpanic⟩ := hlog
    exact h rfl log hmem hpanic

end

/-! ## Both normalizers -/

/-- Where the normalizers of the two chains return. -/
theorem normalizers_return_iff (x : ChainCrates) :
    (∀ raw observedAt, normalizeHeliusTransaction x raw observedAt ≠ .error .panic ↔
      ((signatureOf raw).isSome → HeliusSafe x raw)) ∧
    ∀ block receipts observedAt, normalizeBlock x block receipts observedAt ≠ .error .panic ↔
      ((blockNumber block).isSome → ∀ log ∈ logsOf receipts, ¬ LogPanics log) :=
  ⟨normalizeHelius_panic_iff x, normalizeBlock_panic_iff x⟩

/-- The address of the system program is thirty-two zero bytes. -/
def systemCrates : ChainCrates where
  decodeBase58 s :=
    if s = "11111111111111111111111111111111" then .ok (List.replicate 32 0)
    else .error "provided string contained invalid character"
  fromStrExact s := if s = "1" then .ok Decimal.one else .error "Invalid decimal: unknown character"
  fromTimestamp _ := none
  displayF64 _ := ""

/-- One token transfer with 29 decimals. -/
def manyDecimals : Json := .object [("signature", .string "sig"), ("tokenTransfers", .array [.object [
  ("fromUserAccount", .string "11111111111111111111111111111111"),
  ("toUserAccount", .string "11111111111111111111111111111111"),
  ("mint", .string "11111111111111111111111111111111"),
  ("tokenAmount", .number (.int 1)), ("decimals", .number (.int 29))]])]

/-- A receipt whose second topic has a letter of two bytes at byte 25. -/
def cutReceipt : Json := .object [("transactionHash", .string "0x1"), ("logs", .array [.object [("topics", .array [
  .string ERC20_TRANSFER_TOPIC,
  .string (String.ofList (List.replicate 25 '0' ++ 'é' :: List.replicate 39 '0')),
  .string ""])]])]

theorem normalizers_panic :
    normalizeHeliusTransaction systemCrates manyDecimals 0 = .error .panic ∧
    normalizeBlock systemCrates (.object [("number", .string "0x1")]) [cutReceipt] 0 = .error .panic := by
  decide +kernel

end WhaleIntelligence.Chains
