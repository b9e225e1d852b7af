import ApiScaffold.Text.Quoted

/-! Chains of errors: an error, what caused it, what caused that. Links may lead back, so a chain
ends where it would repeat itself. -/
namespace ApiScaffold.ErrorChain

inductive Kind where
  | system
  | value
  | runtime
  | key
  | marker
  | other (name : String)
  deriving DecidableEq, Repr

def Kind.name : Kind → String
  | .system => "OSError"
  | .value => "ValueError"
  | .runtime => "RuntimeError"
  | .key => "KeyError"
  | .marker => "MarkerError"
  | .other name => name

structure Link where
  kind : Kind
  message : Option String
  cause : Option Nat
  context : Option Nat
  deriving DecidableEq, Repr

/-- The text of an error, or its kind if that is empty. The text about a key is the key in
quotes. -/
def Link.text (l : Link) : String :=
  let text :=
    match l.kind, l.message with
    | _, none => ""
    | .key, some key => Text.quoted key
    | _, some message => message
  if text = "" then l.kind.name else text

/-- The error to tell about next: the cause, or else the context. -/
def Link.next (l : Link) : Option Nat :=
  l.cause <|> l.context

/-- Goes from link to link, through links not yet seen, at most `bound` of them. -/
def walkFrom (links : List Link) : (bound : Nat) → (seen : List Nat) → Option Nat → List Nat
  | 0, _, _ => []
  | _, _, none => []
  | bound + 1, seen, some i =>
    match links[i]? with
    | none => []
    | some link => if i ∈ seen then [] else i :: walkFrom links bound (i :: seen) link.next

/-- The positions of a chain from a start on. There are no more than links. -/
def walk (links : List Link) (start : Nat) : List Nat :=
  walkFrom links links.length [] (some start)

def textsFrom (links : List Link) (start : Nat) : List String :=
  (walk links start).filterMap fun i => (links[i]?).map Link.text

def texts (links : List Link) : List String :=
  textsFrom links 0

end ApiScaffold.ErrorChain
