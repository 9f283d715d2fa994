import Mathlib.Data.List.DropRight
import WhaleIntelligence.Recent.Model

/- Identity keys and their canonical forms.

   A token or wallet key is `chain:rest`. `normalizeIdentity` trims it, maps the
   chain through the alias vocabulary and keeps the rest; a key without a known
   chain has no canonical form. `normalize_chainKey` states that once for every
   key, and `sameToken`, `sameWallet` and `sameActor` are equality of canonical
   forms. A social key is `platform:account`, and its canonical form folds the
   platform to lower case and keeps the account id. -/
namespace WhaleIntelligence.Recent
open WhaleIntelligence

/-! ## The chain vocabulary -/

/-- The frozen alias table of chain names, read after ASCII folding. -/
def canonicalChainName (chain : String) : Option String :=
  match toAsciiLowercase chain with
  | "sol" | "solana" => some "solana"
  | "rh" | "robinhood" => some "robinhood"
  | "eth" | "ethereum" => some "ethereum"
  | "base" => some "base"
  | "bsc" => some "bsc"
  | _ => none

/-- The canonical chain of a `chain:rest` key, without trimming it. -/
def canonicalChain (key : String) : Option String :=
  match splitOnce ':' key with
  | none => none
  | some (chain, rest) => if chain = "" ∨ rest = "" then none else canonicalChainName chain

/-- The prefix of a `platform:rest` key with both parts non-empty. -/
def chainPrefix (key : String) : Option String :=
  match splitOnce ':' key with
  | none => none
  | some (chain, rest) => if chain = "" ∨ rest = "" then none else some chain

/-- `trim_start_matches("www.")`: every leading `www.` goes. -/
def trimStartWww : List Char → List Char
  | 'w' :: 'w' :: 'w' :: '.' :: rest => trimStartWww rest
  | host => host

section
variable (x : Crates)

/-- The canonical identity of a raw value, or `none`: token and wallet keys need
a known chain, social and telegram keys a non-empty platform and id, and a
website is its host in lower case without a leading `www.`. -/
def normalizeIdentity (kind : IdentityKind) (value : String) : Option IdentityKey :=
  let value := trim value
  if value = "" then none
  else match kind with
    | .website =>
      match x.urlHost value with
      | none => none
      | some host =>
        let host := toAsciiLowercase (String.ofList (trimStartWww host.toList))
        if host = "" then none else some ⟨kind, host⟩
    | .token | .wallet =>
      match canonicalChain value, splitOnce ':' value with
      | some chain, some (_, rest) => some ⟨kind, chain ++ ":" ++ rest⟩
      | _, _ => none
    | .social | .telegram =>
      match chainPrefix value with
      | none => none
      | some _ => some ⟨kind, value⟩

/-- Whether some record asserts that the key's id is the account id of its
platform and does not list it as a handle. -/
def isImmutableSocialIdentity (key : String) (bindings : List SocialIdentityRecord) : Bool :=
  match splitOnce ':' key with
  | none => false
  | some (platform, id) =>
    let platform := toAsciiLowercase (trim platform)
    let id := trim id
    if platform = "" ∨ id = "" then false
    else bindings.any fun b =>
      toAsciiLowercase (trim b.platform) == platform && trim b.immutableUserId == id &&
        !b.handles.any fun h => eqIgnoreAsciiCase (trim h) id

/-- Unix seconds of an RFC 3339 text. -/
def parseSecs (s : String) : Option Int := (x.parseDateTime s).map timestamp

/-- Whether two keys have one canonical form under `kind`. -/
def sameKey (kind : IdentityKind) (a b : String) : Bool :=
  match normalizeIdentity x kind a, normalizeIdentity x kind b with
  | some a, some b => a.value == b.value
  | _, _ => false

def sameWallet (a b : String) : Bool := sameKey x .wallet a b

def sameToken (a b : String) : Bool := sameKey x .token a b

/-- The anchor's actor, when known, against an edge's actor. -/
def sameActor (anchorActor : Option String) (edgeActor : String) : Bool :=
  match anchorActor with
  | none => false
  | some anchorActor => sameKey x .wallet anchorActor edgeActor

/-- A social key with its platform folded to lower case and its id verbatim. -/
def canonicalSocialKey (key : String) : Option String :=
  match normalizeIdentity x .social key, splitOnce ':' key with
  | some _, some (platform, id) =>
    let platform := toAsciiLowercase (trim platform)
    let id := trim id
    if platform = "" ∨ id = "" then none else some (platform ++ ":" ++ id)
  | _, _ => none

def sameSocialIdentity (a b : String) : Bool :=
  match canonicalSocialKey x a, canonicalSocialKey x b with
  | some a, some b => a == b
  | _, _ => false

end

/-! ## Canonical forms -/

theorem ofList_eq_empty {l : List Char} : String.ofList l = "" ↔ l = [] := by
  rw [show "" = String.ofList [] from rfl, String.ofList_inj]

theorem splitOnce_eq_none {c : Char} {s : String} (h : splitOnce c s = none) : c ∉ s.toList := by
  unfold splitOnce at h
  split at h
  · rename_i hd
    intro hc
    have := List.dropWhile_eq_nil_iff.mp hd c hc
    simp at this
  · cases h

theorem splitOnce_none {c : Char} {l : List Char} (h : c ∉ l) : splitOnce c (String.ofList l) = none := by
  cases hs : splitOnce c (String.ofList l) with
  | none => rfl
  | some ab =>
    obtain ⟨hl, _⟩ := eq_of_splitOnce (a := ab.1) (b := ab.2) hs
    rw [String.ofList_inj] at hl
    exact absurd (by rw [hl]; simp) h

theorem isWhitespace_colon : isWhitespace ':' = false := by decide

theorem mem_of_mem_trim {c : Char} {l : List Char} (h : c ∈ trimEnd (trimStart l)) : c ∈ l := by
  have h1 : c ∈ trimStart l := by
    simp only [trimEnd, List.mem_reverse] at h
    exact List.mem_reverse.mp ((List.dropWhile_sublist _).mem h)
  exact (List.dropWhile_sublist _).mem h1

/-- Trimming a key trims its prefix on the left and its rest on the right. -/
theorem trim_key (p rest : List Char) :
    trim (String.ofList (p ++ ':' :: rest)) = String.ofList (trimStart p ++ ':' :: trimEnd rest) := by
  rw [trim, String.toList_ofList, trimStart_append_cons isWhitespace_colon,
    trimEnd_append_cons isWhitespace_colon]

theorem colon_not_mem_trimStart {p : List Char} (h : ':' ∉ p) : ':' ∉ trimStart p :=
  fun hm => h ((List.dropWhile_sublist _).mem hm)

theorem canonicalChainName_nil : canonicalChainName "" = none := by decide

theorem canonicalChain_key {p : List Char} (hp : ':' ∉ p) (rest : List Char) :
    canonicalChain (String.ofList (p ++ ':' :: rest)) =
      if rest = [] then none else canonicalChainName (String.ofList p) := by
  simp only [canonicalChain, splitOnce_ofList hp, ofList_eq_empty]
  by_cases hpe : p = []
  · subst hpe
    simp only [true_or, if_true]
    split
    · rfl
    · exact canonicalChainName_nil.symm
  · simp [hpe]

/-- The canonical form of a `chain:rest` key. -/
theorem normalize_chainKey (x : Crates) {kind : IdentityKind} (hk : kind = .token ∨ kind = .wallet)
    {p : List Char} (hp : ':' ∉ p) (rest : List Char) :
    normalizeIdentity x kind (String.ofList (p ++ ':' :: rest)) =
      (canonicalChainName (String.ofList (trimStart p))).bind fun chain =>
        if trimEnd rest = [] then none
        else some ⟨kind, chain ++ ":" ++ String.ofList (trimEnd rest)⟩ := by
  have hp' := colon_not_mem_trimStart hp
  have hne : String.ofList (trimStart p ++ ':' :: trimEnd rest) ≠ "" := by
    rw [Ne, ofList_eq_empty]; simp
  rcases hk with rfl | rfl <;>
  · simp only [normalizeIdentity, trim_key, hne, if_false, canonicalChain_key hp', splitOnce_ofList hp']
    by_cases hr : trimEnd rest = []
    · simp [hr]
    · simp only [hr, if_false]
      cases canonicalChainName (String.ofList (trimStart p)) <;> rfl

/-- A text without a colon is no token or wallet key. -/
theorem normalize_no_colon (x : Crates) {kind : IdentityKind} (hk : kind = .token ∨ kind = .wallet)
    {s : String} (h : ':' ∉ s.toList) : normalizeIdentity x kind s = none := by
  have htrim : splitOnce ':' (trim s) = none := splitOnce_none fun hm => h (mem_of_mem_trim hm)
  rcases hk with rfl | rfl <;>
  · simp only [normalizeIdentity, canonicalChain, htrim]
    split <;> rfl

/-- The alias table as a list of spellings and canonical names. -/
def chainTable : List (String × String) :=
  [("sol", "solana"), ("solana", "solana"), ("rh", "robinhood"), ("robinhood", "robinhood"),
    ("eth", "ethereum"), ("ethereum", "ethereum"), ("base", "base"), ("bsc", "bsc")]

theorem mem_chainTable {s c : String} (h : canonicalChainName s = some c) :
    (toAsciiLowercase s, c) ∈ chainTable := by
  unfold canonicalChainName at h
  split at h <;> simp_all [chainTable]

theorem chainTable_facts : ∀ e ∈ chainTable, canonicalChainName e.2 = some e.2 ∧ ':' ∉ e.2.toList ∧
    trimStart e.2.toList = e.2.toList ∧ trimStart e.1.toList = e.1.toList := by decide

/-- A chain name the table knows has no blank in front. -/
theorem trimStart_chainName {p : List Char} {c : String} (h : canonicalChainName (String.ofList p) = some c) :
    trimStart p = p := by
  obtain ⟨-, -, -, hlow⟩ := chainTable_facts _ (mem_chainTable h)
  simp only [toAsciiLowercase, String.toList_ofList, trimStart_map_toLower] at hlow
  have hlen := congrArg List.length hlow
  simp only [List.length_map] at hlen
  exact (List.dropWhile_suffix _).eq_of_length hlen

theorem trimEnd_trimEnd (l : List Char) : trimEnd (trimEnd l) = trimEnd l := by
  simp only [trimEnd, List.reverse_reverse, List.dropWhile_idempotent]

theorem key_eq_ofList (c : String) (r : List Char) :
    c ++ ":" ++ String.ofList r = String.ofList (c.toList ++ ':' :: r) := by
  rw [← String.toList_inj]
  simp

/-- The parts of a canonical token or wallet key. -/
theorem normalize_parts {x : Crates} {kind : IdentityKind} (hk : kind = .token ∨ kind = .wallet)
    {v : String} {k : IdentityKey} (h : normalizeIdentity x kind v = some k) :
    ∃ (p rest : List Char) (c : String), ':' ∉ p ∧ v = String.ofList (p ++ ':' :: rest) ∧
      canonicalChainName (String.ofList (trimStart p)) = some c ∧ trimEnd rest ≠ [] ∧
      k = ⟨kind, String.ofList (c.toList ++ ':' :: trimEnd rest)⟩ := by
  cases hs : splitOnce ':' v with
  | none => rw [normalize_no_colon x hk (splitOnce_eq_none hs)] at h; cases h
  | some ab =>
    obtain ⟨hv, hp⟩ := eq_of_splitOnce (a := ab.1) (b := ab.2) hs
    rw [hv, normalize_chainKey x hk hp] at h
    obtain ⟨c, hc, h⟩ := Option.bind_eq_some_iff.mp h
    split at h
    · cases h
    · rename_i hr
      refine ⟨_, _, c, hp, hv, hc, hr, ?_⟩
      rw [← key_eq_ofList]
      exact (Option.some.inj h).symm

theorem normalize_kind {x : Crates} {kind : IdentityKind} {v : String} {k : IdentityKey}
    (h : normalizeIdentity x kind v = some k) : k.kind = kind := by
  cases kind <;> simp only [normalizeIdentity] at h <;> repeat' split at h
  all_goals first
    | cases h; done
    | cases h; rfl

/-- A canonical key is its own canonical form. -/
theorem normalize_idem {x : Crates} {kind : IdentityKind} (hk : kind = .token ∨ kind = .wallet)
    {v : String} {k : IdentityKey} (h : normalizeIdentity x kind v = some k) :
    normalizeIdentity x kind k.value = some k := by
  obtain ⟨p, rest, c, -, -, hc, hr, rfl⟩ := normalize_parts hk h
  obtain ⟨hcc, hcolon, htrim, -⟩ := chainTable_facts _ (mem_chainTable hc)
  rw [normalize_chainKey x hk hcolon, htrim, String.ofList_toList, hcc, Option.bind_some,
    trimEnd_trimEnd, if_neg hr, key_eq_ofList]

/-- A key whose chain is known untrimmed keeps that chain in its canonical form. -/
theorem canonicalChain_normalize {x : Crates} {kind : IdentityKind} (hk : kind = .token ∨ kind = .wallet)
    {v c : String} {k : IdentityKey} (hc : canonicalChain v = some c)
    (h : normalizeIdentity x kind v = some k) : canonicalChain k.value = some c := by
  obtain ⟨p, rest, c', hp, rfl, hc', hr, rfl⟩ := normalize_parts hk h
  rw [canonicalChain_key hp] at hc
  split at hc
  · cases hc
  · rw [trimStart_chainName hc] at hc'
    rw [hc] at hc'
    cases hc'
    obtain ⟨hcc, hcolon, -, -⟩ := chainTable_facts _ (mem_chainTable hc)
    rw [canonicalChain_key hcolon, if_neg hr, String.ofList_toList, hcc]

theorem sameKey_iff {x : Crates} {kind : IdentityKind} {a b : String} :
    sameKey x kind a b = true ↔
      ∃ k, normalizeIdentity x kind a = some k ∧ normalizeIdentity x kind b = some k := by
  unfold sameKey
  cases ha : normalizeIdentity x kind a with
  | none => simp
  | some k =>
    cases hb : normalizeIdentity x kind b with
    | none => simp
    | some l =>
      have hkl : k.kind = l.kind := (normalize_kind ha).trans (normalize_kind hb).symm
      rw [beq_iff_eq]
      refine ⟨fun hv => ?_, fun h => ?_⟩
      · refine ⟨k, rfl, ?_⟩
        cases k; cases l
        simp_all
      · obtain ⟨_, ⟨rfl⟩, h⟩ := h
        cases h
        rfl

end WhaleIntelligence.Recent
