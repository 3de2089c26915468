import GraphSql.Text.Basic

namespace GraphSql.Iri.Address
open Text

def isByte (digits : List Char) : Bool :=
  match digits with
  | [] => false
  | [a] => a.isDigit
  | '0' :: _ => false
  | _ =>
    digits.all Char.isDigit && digits.length ≤ 3 && readDecimal digits ≤ 255

def isDotted (cs : List Char) : Bool :=
  let parts := splitAt '.' cs
  parts.length == 4 && parts.all isByte

def isGroup (cs : List Char) : Bool :=
  !cs.isEmpty && cs.length ≤ 4 && cs.all isHexDigit

-- How many groups the text has. A dotted address in last place, where `dotted` allows it, counts
-- for two. The empty text has no groups.
def groupCount? (dotted : Bool) (cs : List Char) : Option Nat :=
  if cs.isEmpty then some 0
  else
    let parts := splitAt ':' cs
    if parts.all isGroup then some parts.length
    else
      match parts.reverse with
      | [] => none
      | last :: front =>
        if dotted && isDotted last && front.all isGroup then some (front.length + 2) else none

def cutAtGap? : List Char → Option (List Char × List Char)
  | [] => none
  | ':' :: ':' :: after => some ([], after)
  | c :: rest => (cutAtGap? rest).map fun (before, after) => (c :: before, after)

-- Eight groups, or fewer around one gap, which stands for at least one group of zeros. Only the
-- groups after the gap, or all of them if there is none, may end in a dotted address.
def isVersion6 (cs : List Char) : Bool :=
  match cutAtGap? cs with
  | none => groupCount? true cs == some 8
  | some (before, after) =>
    match groupCount? false before, groupCount? true after with
    | some front, some back => front + back ≤ 7
    | _, _ => false

def isLaterVersion (allowed : Char → Bool) (cs : List Char) : Bool :=
  match cutAt? '.' cs with
  | none => false
  | some (version, rest) =>
    !version.isEmpty && version.all isHexDigit && !rest.isEmpty && rest.all allowed

end GraphSql.Iri.Address

namespace GraphSql.Iri
open Text

-- Which texts are absolute IRIs: `scheme:`, then an authority after `//` if there is one, then
-- path, query and fragment. Nothing is normalised.

def isPlainAscii (c : Char) : Bool :=
  c.isAlphanum || "!$&'()*+,-.;=_~".toList.contains c

def isWide (c : Char) : Bool :=
  let n := c.toNat
  (0xA0 ≤ n && n ≤ 0xD7FF) || (0xF900 ≤ n && n ≤ 0xFDCF) || (0xFDF0 ≤ n && n ≤ 0xFFEF) ||
    (0x10000 ≤ n && n ≤ 0xDFFFD && n % 0x10000 ≤ 0xFFFD) || (0xE1000 ≤ n && n ≤ 0xEFFFD)

def isPlain (c : Char) : Bool := isPlainAscii c || isWide c

def isPrivate (c : Char) : Bool :=
  let n := c.toNat
  (0xE000 ≤ n && n ≤ 0xF8FF) || (0xF0000 ≤ n && n ≤ 0xFFFFD) || (0x100000 ≤ n && n ≤ 0x10FFFD)

def isPathChar (c : Char) : Bool := isPlain c || c == ':' || c == '@' || c == '/'

def isQueryChar (c : Char) : Bool := isPathChar c || c == '?' || isPrivate c

def isFragmentChar (c : Char) : Bool := isPathChar c || c == '?'

def isCoded (allowed : Char → Bool) : List Char → Bool
  | [] => true
  | '%' :: high :: low :: rest => isHexDigit high && isHexDigit low && isCoded allowed rest
  | c :: rest => allowed c && isCoded allowed rest

def isScheme : List Char → Bool
  | [] => false
  | first :: rest => first.isAlpha && rest.all fun c => c.isAlphanum || "+-.".toList.contains c

def isPortSuffix : List Char → Bool
  | [] => true
  | c :: digits => c == ':' && digits.all Char.isDigit

def isAddressLiteral (cs : List Char) : Bool :=
  match cs with
  | 'v' :: rest | 'V' :: rest => Address.isLaterVersion (fun c => isPlainAscii c || c == ':') rest
  | _ => Address.isVersion6 cs

def isHost (cs : List Char) : Bool :=
  match cs with
  | '[' :: rest =>
    match cutAt? ']' rest with
    | none => false
    | some (address, suffix) => isAddressLiteral address && isPortSuffix suffix
  | _ => isCoded isPlain (cs.takeWhile (· != ':')) && isPortSuffix (cs.dropWhile (· != ':'))

def isAuthority (cs : List Char) : Bool :=
  match cutAt? '@' cs with
  | none => isHost cs
  | some (user, host) => isCoded (fun c => isPlain c || c == ':') user && isHost host

def isFragment (cs : List Char) : Bool := isCoded isFragmentChar cs

def isAfterPath : List Char → Bool
  | [] => true
  | '?' :: rest =>
    match cutAt? '#' rest with
    | none => isCoded isQueryChar rest
    | some (query, fragment) => isCoded isQueryChar query && isFragment fragment
  | '#' :: rest => isFragment rest
  | _ => false

def endsPath (c : Char) : Bool := c == '?' || c == '#'

def isPathOn (cs : List Char) : Bool :=
  isCoded isPathChar (cs.takeWhile (!endsPath ·)) && isAfterPath (cs.dropWhile (!endsPath ·))

def endsAuthority (c : Char) : Bool := c == '/' || endsPath c

def isAfterScheme : List Char → Bool
  | '/' :: '/' :: rest =>
    isAuthority (rest.takeWhile (!endsAuthority ·)) && isPathOn (rest.dropWhile (!endsAuthority ·))
  | cs => isPathOn cs

def isAbsolute (cs : List Char) : Bool :=
  match cutAt? ':' cs with
  | none => false
  | some (scheme, rest) => isScheme scheme && isAfterScheme rest

end GraphSql.Iri
