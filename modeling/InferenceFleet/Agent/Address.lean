import InferenceFleet.Agent.Domain
import InferenceFleet.Failure

/-!
# Addresses of node agents

A target is `host:port` or a full URL. `baseUrl` makes a URL of it, and refuses one whose scheme,
host or port no URL can have; paths, queries and fragments are never at fault.
-/

namespace InferenceFleet

inductive UrlFault where
  | emptyHost
  | invalidDomain
  | invalidPort
  | invalidIpv4
  | invalidIpv6
  | invalidDomainCharacter
  | noBase
  deriving DecidableEq, Repr

def UrlFault.message : UrlFault → String
  | .emptyHost => "empty host"
  | .invalidDomain => "invalid international domain name"
  | .invalidPort => "invalid port number"
  | .invalidIpv4 => "invalid IPv4 address"
  | .invalidIpv6 => "invalid IPv6 address"
  | .invalidDomainCharacter => "invalid domain character"
  | .noBase => "relative URL without a base"

namespace Url

/-- The kinds of scheme that differ in how an authority is read. -/
inductive SchemeKind where
  | web | file | other
  deriving DecidableEq

def kindOf (scheme : String) : SchemeKind :=
  if ["http", "https", "ws", "wss", "ftp"].contains scheme then .web
  else if scheme == "file" then .file
  else .other

def isHexDigit (c : Char) : Bool :=
  c.isDigit || ('a' ≤ c && c ≤ 'f') || ('A' ≤ c && c ≤ 'F')

def hexDigitValue (c : Char) : Nat :=
  if c.isDigit then c.toNat - 48 else if 'a' ≤ c then c.toNat - 87 else c.toNat - 55

/-- A part of an IPv4 address: hexadecimal after `0x`, octal after `0`, else decimal. `none` for
what is no number, `some none` for a number beyond 32 bits. -/
def ipv4Number? (part : List Char) : Option (Option Nat) :=
  let (radix, digits) : Nat × List Char :=
    match part with
    | '0' :: 'x' :: rest => (16, rest)
    | '0' :: 'X' :: rest => (16, rest)
    | '0' :: c :: rest => (8, c :: rest)
    | part => (10, part)
  if part.isEmpty then none
  else if digits.all fun c => isHexDigit c && hexDigitValue c < radix then
    let n := digits.foldl (fun n c => n * radix + hexDigitValue c) 0
    some (if n < 2 ^ 32 then some n else none)
  else none

/-- The labels without an empty one at the end. -/
def withoutRoot (labels : List (List Char)) : List (List Char) :=
  if labels.getLast? = some [] ∧ 1 < labels.length then labels.dropLast else labels

/-- Whether the last label of a domain is a number, so that the whole must be an address. -/
def endsInNumber (domain : List Char) : Bool :=
  match (withoutRoot (Domain.labels domain)).getLast? with
  | none => false
  | some last =>
    !last.isEmpty && (last.all Char.isDigit || (ipv4Number? last).isSome)

/-- Up to four numbers, of which the last fills the bytes that the others leave. -/
def isIpv4 (domain : List Char) : Bool :=
  let parts := withoutRoot (Domain.labels domain)
  if 4 < parts.length then false
  else
    match parts.mapM fun part => (ipv4Number? part).join with
    | none => false
    | some numbers =>
      match numbers.reverse with
      | [] => false
      | last :: others => last < 256 ^ (4 - others.length) && others.all (· < 256)

/-- A group of up to four hex digits and the rest. -/
def hexGroup (cs : List Char) : List Char × List Char :=
  let group := (cs.take 4).takeWhile isHexDigit
  (group, cs.drop group.length)

/-- A decimal byte without leading zeros. -/
def isByte (part : List Char) : Bool :=
  !part.isEmpty && part.all Char.isDigit && (part.length == 1 || part.head? != some '0') &&
    part.length ≤ 3 && part.foldl (fun n c => n * 10 + hexDigitValue c) 0 ≤ 255

/-- Four decimal bytes, as they may end an IPv6 address. -/
def isDottedQuad (cs : List Char) : Bool :=
  let parts := cs.splitOn '.'
  parts.length == 4 && parts.all isByte

/-- The groups of an IPv6 address from its `count`th on; `compressed` says whether `::` occurred.
`bound` bounds the number of groups. -/
def ipv6Groups (compressed : Bool) (count : Nat) (bound : Nat) (cs : List Char) : Bool :=
  match bound with
  | 0 => false
  | bound + 1 =>
    match cs with
    | [] => compressed || count == 8
    | ':' :: cs => count < 8 && !compressed && ipv6Groups true (count + 1) bound cs
    | cs =>
      let (group, rest) := hexGroup cs
      if 8 ≤ count then false
      else
        match rest with
        | [] => ipv6Groups compressed (count + 1) bound []
        | '.' :: _ =>
          !group.isEmpty && count ≤ 6 && isDottedQuad cs && (compressed || count == 6)
        | ':' :: rest => !rest.isEmpty && ipv6Groups compressed (count + 1) bound rest
        | _ => false

/-- Eight groups of hex digits, one run of zeros written as `::`. -/
def isIpv6 (cs : List Char) : Bool :=
  match cs with
  | [] => false
  | [_] => false
  | ':' :: ':' :: cs => ipv6Groups true 1 20 cs
  | ':' :: _ => false
  | cs => ipv6Groups false 0 20 cs

/-- An address in brackets. -/
def checkBracketed (host : List Char) : Except UrlFault Unit :=
  if host.getLast? = some ']' ∧ isIpv6 (host.drop 1).dropLast then .ok () else .error .invalidIpv6

/-- A host of a scheme whose hosts are domains. -/
def checkDomain (host : List Char) : Except UrlFault Unit :=
  if host.head? = some '[' then checkBracketed host
  else
    match Domain.normalise? host with
    | none => .error .invalidDomain
    | some domain =>
      if domain.isEmpty then .error .emptyHost
      else if endsInNumber domain ∧ !isIpv4 domain then .error .invalidIpv4
      else .ok ()

/-- Characters that stand in no host at all. -/
def isForbiddenInHost (c : Char) : Bool :=
  ['\x00', '\t', '\n', '\r', ' ', '#', '/', ':', '<', '>', '?', '@', '[', '\\', ']', '^',
    '|'].contains c

/-- A host of any other scheme. -/
def checkOpaque (host : List Char) : Except UrlFault Unit :=
  if host.head? = some '[' then checkBracketed host
  else if host.any isForbiddenInHost then .error .invalidDomainCharacter
  else .ok ()

/-- Whether a character ends the authority. -/
def endsAuthority (kind : SchemeKind) (c : Char) : Bool :=
  c == '/' || c == '?' || c == '#' || (c == '\\' && kind != .other)

/-- The host at the start, which a colon outside brackets ends, and the rest. -/
def splitHost (inBrackets : Bool) : List Char → List Char × List Char
  | [] => ([], [])
  | c :: cs =>
    if c = ':' ∧ !inBrackets then ([], c :: cs)
    else
      let (host, rest) := splitHost (c == '[' || (inBrackets && c != ']')) cs
      (c :: host, rest)

/-- A port: digits up to 65535, or none. -/
def checkPort (cs : List Char) : Except UrlFault Unit :=
  if cs.all Char.isDigit ∧ cs.foldl (fun n c => min (n * 10 + hexDigitValue c) 65536) 0 ≤ 65535 then
    .ok ()
  else .error .invalidPort

/-- The authority after the user's name, if that is there. -/
def afterUser (authority : List Char) : Option (List Char) × List Char :=
  if authority.contains '@' then
    let reversed := authority.reverse
    (some ((reversed.dropWhile (· ≠ '@')).drop 1).reverse, (reversed.takeWhile (· ≠ '@')).reverse)
  else (none, authority)

/-- The authority of a URL. -/
def checkAuthority (kind : SchemeKind) (cs : List Char) : Except UrlFault Unit := do
  let authority := cs.takeWhile fun c => !endsAuthority kind c
  let follows := authority.length < cs.length
  let (user, place) := afterUser authority
  if user = some [] ∧ place.isEmpty ∧ follows then throw .emptyHost
  let (host, port) := splitHost false place
  if kind = .web ∧ host.isEmpty then throw .emptyHost
  if kind = .web then checkDomain host else checkOpaque host
  match port with
  | [] => if host.isEmpty ∧ user.any (!·.isEmpty) then throw .emptyHost
  | _ :: port =>
    if host.isEmpty then throw .emptyHost
    checkPort port

/-- The host of a `file` URL, which may be missing. -/
def checkFileHost (cs : List Char) : Except UrlFault Unit :=
  let host := cs.takeWhile fun c => !endsAuthority .file c
  match host with
  | [] => .ok ()
  | [letter, mark] =>
    if letter.isAlpha ∧ (mark = ':' ∨ mark = '|') then .ok () else checkDomain host
  | _ => checkDomain host

def isSlash (c : Char) : Bool := c == '/' || c == '\\'

/-- The scheme before the first colon, in lower case, and what follows the colon. -/
def splitScheme (cs : List Char) : Option (String × List Char) :=
  match cs with
  | [] => none
  | c :: _ =>
    let scheme := cs.takeWhile fun c => c.isAlphanum || c == '+' || c == '-' || c == '.'
    match cs.drop scheme.length with
    | ':' :: rest =>
      if c.isAlpha then some ((String.ofList scheme).toLower, rest) else none
    | _ => none

/-- Blanks and controls at the ends and line breaks anywhere do not belong to a URL. -/
def strip (cs : List Char) : List Char :=
  let isEdge (c : Char) : Bool := c.toNat ≤ 0x20
  (((cs.dropWhile isEdge).reverse.dropWhile isEdge).reverse).filter fun c =>
    c != '\t' && c != '\n' && c != '\r'

/-- Whether a text is a URL. -/
def check (text : String) : Except UrlFault Unit :=
  match splitScheme (strip text.toList) with
  | none => .error .noBase
  | some (scheme, rest) =>
    match kindOf scheme with
    | .web => checkAuthority .web (rest.dropWhile isSlash)
    | .file =>
      match rest with
      | c :: d :: rest => if isSlash c ∧ isSlash d then checkFileHost rest else .ok ()
      | _ => .ok ()
    | .other =>
      match rest with
      | '/' :: '/' :: rest => checkAuthority .other rest
      | _ => .ok ()

end Url

namespace AgentAddress

/-- What a full URL holds. -/
def schemeMark : List Char := [':', '/', '/']

/-- Whether `part` occurs in a text. -/
def occurs (part : List Char) : List Char → Bool
  | [] => part.isEmpty
  | c :: cs => part.isPrefixOf (c :: cs) || occurs part cs

/-- The text without slashes at its end. -/
def withoutSlashes (text : String) : String :=
  String.ofList ((text.toList.reverse.dropWhile (· = '/')).reverse)

/-- The URL that a target stands for: a full URL without slashes at its end, or one made of a host
and a port. -/
def urlOf (target : String) : String :=
  if occurs schemeMark target.toList then withoutSlashes target else "http://" ++ target

/-- Why no agent can be reached at the target. -/
def invalidTarget (target : String) (f : UrlFault) : AgentFault :=
  .connect ("invalid agent address " ++ target ++ ": " ++ f.message)

/-- The base of the URLs at which an agent is called. -/
def baseUrl (target : String) : Except AgentFault String :=
  match Url.check (urlOf target) with
  | .ok () => .ok (urlOf target)
  | .error f => .error (invalidTarget target f)

end AgentAddress

end InferenceFleet
