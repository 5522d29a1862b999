import Directives.Network.Transport

/-! A machine without a network. A request fails before it is sent if its address or its token
cannot be written down as they stand, and otherwise because nothing can be reached. -/
namespace Directives.Network

inductive AddressProblem
  | badCharacter
  | badForm
  | noScheme (address : String)
  deriving DecidableEq, Repr

def AddressProblem.message : AddressProblem → String
  | badCharacter => "http: invalid uri character"
  | badForm => "http: invalid format"
  | noScheme address => s!"bad uri: {address} is missing scheme"

def allowedInPath (c : Char) : Bool := '!' ≤ c && c ≠ '<' && c ≠ '>' && c.toNat ≠ 0x60

/-- Whether a character may stand behind the question mark of an address. -/
def allowedInQuery (c : Char) : Bool := '!' ≤ c && c ≠ '"' && c ≠ '<' && c ≠ '>'

/-- The path of an address and what follows it, up to the number sign. -/
def isWellWritten (path : List Char) : Bool :=
  let path := path.takeWhile (· ≠ '#')
  (path.takeWhile (· ≠ '?')).all allowedInPath &&
    ((path.dropWhile (· ≠ '?')).drop 1).all allowedInQuery

/-- What follows the scheme and `://`. -/
def behindScheme? (address : List Char) : Option (List Char) :=
  match address.dropWhile (·.isAlphanum) with
  | ':' :: '/' :: '/' :: rest => some rest
  | _ => none

def addressProblem? (address : String) : Option AddressProblem :=
  match address.toList with
  | '/' :: path => if isWellWritten path then some (.noScheme address) else some .badCharacter
  | text =>
    match behindScheme? text with
    | none => some .badForm
    | some rest =>
      let path := rest.dropWhile fun c => c ≠ '/' && c ≠ '?' && c ≠ '#'
      if path.length = rest.length then some .badForm
      else if isWellWritten path then none
      else some .badCharacter

/-- Whether a token may be sent along: no control character but the tab is in it. -/
def isSendable (token : String) : Bool :=
  token.toList.all fun c => c = '\t' || (' ' ≤ c && c ≠ '\x7f')

/-- Why a request is not taken, if it is not. -/
def refusal? (request : Request) : Option String :=
  match addressProblem? request.url with
  | some problem => some problem.message
  | none => if request.token.all isSendable then none else some "http: failed to parse header value"

def Transport.isolated {σ : Type} : Transport σ where
  send request _ s :=
    (.unsent (some ((refusal? request).getD "io: Network is unreachable (os error 101)")), s)
  target _ _ := .error "no answer"
  now _ := 0

def isolated {σ : Type} : Link σ := Transport.isolated.link

end Directives.Network
