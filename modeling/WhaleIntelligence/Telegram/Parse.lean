import WhaleIntelligence.Lib.FirstWins
import WhaleIntelligence.Text

/- `telegram_parse`: what a message text mentions and claims.

   A function that can panic returns `none` there. The mentions are taken from the
   trimmed text with offsets that were found in it. The claims are not: their offsets
   are found in the lower-case text, and their contexts cut from the trimmed text. -/
namespace WhaleIntelligence.Telegram
open WhaleIntelligence FirstWins Framing

inductive MentionKind
  | mint | wallet | url
  deriving DecidableEq, Repr

def MentionKind.asStr : MentionKind → String
  | .mint => "mint"
  | .wallet => "wallet"
  | .url => "url"

structure ParsedClaim where
  claimType : String
  keyword : String
  context : String
  deriving DecidableEq, Repr

structure ParsedMention where
  kind : MentionKind
  extractedValue : String
  context : String
  deriving DecidableEq, Repr

/-- The pair that a set of seen mentions holds. -/
def ParsedMention.seenKey (m : ParsedMention) : MentionKind × String := (m.kind, m.extractedValue)

structure ParsedMessage where
  mentions : List ParsedMention
  claims : List ParsedClaim
  /-- The message has no text. -/
  mediaOnly : Bool
  deriving DecidableEq, Repr

/-- The keywords with their claim types. -/
def CLAIM_KEYWORDS : List (String × String) :=
  [("buy", "buy"), ("sell", "sell"), ("entry", "entry"), ("exit", "exit"), ("target", "target"), ("launch", "launch"),
    ("partnership", "partnership"), ("narrative", "narrative")]

/-- What the parser takes from outside the repository. -/
structure TextCrates extends LowerCase where
  /-- `bs58`: `bs58::decode(value).into_vec().ok()`. -/
  decodeBase58 : List Char → Option Bytes

/-- Lower case by the Latin letters, and no base58 text that decodes. -/
def latinCrates : TextCrates := { latin with decodeBase58 := fun _ => none }

/-- `char::is_ascii_alphanumeric`. -/
def isAsciiAlphanumeric (c : Char) : Bool :=
  ('a' ≤ c && c ≤ 'z') || ('A' ≤ c && c ≤ 'Z') || ('0' ≤ c && c ≤ '9')

def isWordChar (c : Char) : Bool := isAsciiAlphanumeric c || c = '_'

/-! ## Contexts -/

/-- `context_around`: thirty characters before and after the bytes of a match. -/
def contextAround (text : List Char) (start length : Nat) : Option String := do
  let (before, rest) ← splitAtByte text start
  let (part, _) ← splitAtByte rest length
  let low := before.length - 30
  let high := min (before.length + part.length + 30) text.length
  return String.ofList ((text.take high).drop low)

/-! ## Addresses -/

def isBase58Char (c : Char) : Bool := isAsciiAlphanumeric c && c != '0' && c != 'O' && c != 'I' && c != 'l'

section
variable (x : TextCrates)

def isValidSolanaAddress (value : List Char) : Bool :=
  32 ≤ byteLen value && byteLen value ≤ 44 && ((x.decodeBase58 value).map fun v => v.length == 32).getD false

/-- A candidate that is complete. -/
def completeCandidate (text current : List Char) (start : Nat) : Option (List (String × String)) :=
  if !current.isEmpty && isValidSolanaAddress x current then do
    let context ← contextAround text start (byteLen current)
    return [(String.ofList current, context)]
  else some []

/-- The loop of `extract_base58_candidates` from the character at `offset` on. -/
def base58From (text : List Char) (offset : Nat) (current : List Char) (start : Nat) :
    List Char → Option (List (String × String))
  | [] => completeCandidate x text current start
  | c :: l =>
    if isBase58Char c then
      base58From text (offset + c.utf8Size) (current ++ [c]) (if current.isEmpty then offset else start) l
    else do
      let found ← completeCandidate x text current start
      let more ← base58From text (offset + c.utf8Size) [] start l
      return found ++ more

def extractBase58Candidates (text : List Char) : Option (List (String × String)) := base58From x text 0 [] 0 text

end

/-! ## URLs -/

/-- The character that ends a URL. -/
def endsUrl (c : Char) : Bool := isWhitespace c || c = ')' || c = ']' || c = '>'

/-- The loop of `extract_urls`, `none` also where the rounds do not suffice. -/
def extractUrlsFrom (text : List Char) : Nat → List Char → Nat → Option (List (String × String))
  | 0, _, _ => none
  | n + 1, remainder, offset =>
    match (find "http://".toList remainder).or (find "https://".toList remainder) with
    | none => some []
    | some pos => do
      let (_, after) ← splitAtByte remainder pos
      let stop := (findWhere endsUrl after).getD (byteLen after)
      let (url, _) ← splitAtByte after stop
      let found ←
        if url.isEmpty then some []
        else (contextAround text (offset + pos) (byteLen url)).map fun context => [(String.ofList url, context)]
      let skip := pos + max stop 1
      let (_, rest) ← splitAtByte remainder skip
      let more ← extractUrlsFrom text n rest (offset + skip)
      return found ++ more

def extractUrls (text : List Char) : Option (List (String × String)) := extractUrlsFrom text (text.length + 1) text 0

/-! ## Claims -/

/-- The loop that looks for one keyword, `none` also where the rounds do not suffice. -/
def findClaim (trimmed lower : List Char) (keyword claimType : String) : Nat → Nat → Option (Option ParsedClaim)
  | 0, _ => none
  | n + 1, searchFrom => do
    let (_, rest) ← splitAtByte lower searchFrom
    match find keyword.toList rest with
    | none => some none
    | some pos =>
      let absolute := searchFrom + pos
      let (before, found) ← splitAtByte lower absolute
      let beforeOk := !before.getLast?.any isWordChar
      let (_, after) ← splitAtByte found (byteLen keyword.toList)
      let afterOk := !after.head?.any isWordChar
      if beforeOk && afterOk then do
        let context ← contextAround trimmed absolute (byteLen keyword.toList)
        return some ⟨claimType, keyword, context⟩
      else findClaim trimmed lower keyword claimType n (absolute + byteLen keyword.toList)

/-! ## Messages -/

def mediaOnlyMessage : ParsedMessage := ⟨[], [], true⟩

def parseMessageText (x : TextCrates) (text : Option String) : Option ParsedMessage :=
  match text with
  | none => some mediaOnlyMessage
  | some text =>
    let trimmed := (trim text).toList
    if trimmed.isEmpty then some mediaOnlyMessage
    else do
      let urls ← extractUrls trimmed
      let candidates ← extractBase58Candidates x trimmed
      let lower := x.toLowercase trimmed
      let claims ← CLAIM_KEYWORDS.mapM fun k => findClaim trimmed lower k.1 k.2 (lower.length + 1) 0
      return {
        -- each kind and value once, by the `HashSet` of those that were seen
        mentions := firstWins ParsedMention.seenKey
          ((urls.map fun u => ⟨.url, u.1, u.2⟩) ++ candidates.map fun m => ⟨.mint, m.1, m.2⟩)
        claims := claims.reduceOption
        mediaOnly := false }

end WhaleIntelligence.Telegram
