import SealedStream.Hash

/-!
Links to running hashes that are computed elsewhere, and the tokens that end a wait for one.

A link is a handle to a slot; copies of it share the slot. A slot settles once: it takes the first
hash it is given, or is released without one. Reading waits for that, unless the reader's token is
cancelled.
-/

namespace SealedStream

inductive LinkState where
  | pending
  | resolved (hash : Hash)
  | released
  deriving DecidableEq

/-- A handle to a slot. -/
structure Link where
  slot : Nat
  deriving DecidableEq, Repr

/-- A handle to a cancellation flag. -/
structure Token where
  flag : Nat
  deriving DecidableEq, Repr

/-- Why a wait brought no hash. -/
inductive LinkError where
  | cancelled
  | released
  deriving DecidableEq, Repr

def LinkError.message : LinkError → String
  | .cancelled => "wait for running hash was cancelled"
  | .released => "running hash link was released before it resolved"

/-- What a slot answers a reader that waits; `none` as long as nothing is there. -/
def LinkState.answer : LinkState → Option (Except LinkError Hash)
  | .pending => none
  | .resolved h => some (.ok h)
  | .released => some (.error .released)

/-- All slots and flags. Handles are given out in order, and an unused slot is pending. -/
structure Pipeline where
  state : Nat → LinkState
  cancelled : Nat → Bool
  links : Nat
  tokens : Nat

/-- What others do to links and tokens. -/
inductive Intervention where
  | resolve (link : Link) (hash : Hash)
  | release (link : Link)
  | cancel (token : Token)
  deriving DecidableEq

namespace Pipeline

def empty : Pipeline := ⟨fun _ => .pending, fun _ => false, 0, 0⟩

/-- Fills a slot, whatever it held. -/
def setState (p : Pipeline) (l : Link) (s : LinkState) : Pipeline :=
  { p with state := fun i => if i = l.slot then s else p.state i }

def stateOf (p : Pipeline) (l : Link) : LinkState := p.state l.slot

/-- A new link whose slot holds `s`. -/
def newLink (p : Pipeline) (s : LinkState) : Link × Pipeline :=
  (⟨p.links⟩, { p.setState ⟨p.links⟩ s with links := p.links + 1 })

def newToken (p : Pipeline) : Token × Pipeline :=
  (⟨p.tokens⟩,
    { p with
      cancelled := fun i => if i = p.tokens then false else p.cancelled i
      tokens := p.tokens + 1 })

/-- Settles a pending link; says whether it did. -/
def settle (p : Pipeline) (l : Link) (s : LinkState) : Bool × Pipeline :=
  if p.stateOf l = .pending then (true, p.setState l s) else (false, p)

def resolve (p : Pipeline) (l : Link) (h : Hash) : Bool × Pipeline := p.settle l (.resolved h)

def release (p : Pipeline) (l : Link) : Bool × Pipeline := p.settle l .released

def isCancelled (p : Pipeline) (t : Token) : Bool := p.cancelled t.flag

def cancel (p : Pipeline) (t : Token) : Pipeline :=
  { p with cancelled := fun i => if i = t.flag then true else p.cancelled i }

/-- The hash, if there is one by now. -/
def hash? (p : Pipeline) (l : Link) : Option Hash :=
  match p.stateOf l with
  | .resolved h => some h
  | _ => none

def isResolved (p : Pipeline) (l : Link) : Bool := (p.hash? l).isSome

/-- What a call is told at once: a cancelled token ends it, whatever the slot holds. -/
def enter (p : Pipeline) (t : Token) : Option (Except LinkError Hash) :=
  if p.isCancelled t then some (.error .cancelled) else none

/-- What a waiting reader finds when it wakes up: the slot comes first, then the token. -/
def poll (p : Pipeline) (l : Link) (t : Token) : Option (Except LinkError Hash) :=
  (p.stateOf l).answer.or (p.enter t)

/-- What a call gets without waiting; `none` when it has to wait. -/
def read (p : Pipeline) (l : Link) (t : Token) : Option (Except LinkError Hash) :=
  (p.enter t).or (p.poll l t)

def perform (p : Pipeline) : Intervention → Pipeline
  | .resolve l h => (p.resolve l h).2
  | .release l => (p.release l).2
  | .cancel t => p.cancel t

/-- A reader that has been let in: it looks, sleeps while others intervene, and looks again. Gives
the answer, the interventions still to come and the pipeline then; `none` when nothing ends the
wait. -/
def linger (l : Link) (t : Token) :
    Pipeline → List Intervention → Option (Except LinkError Hash × List Intervention × Pipeline)
  | p, [] => (p.poll l t).map fun answer => (answer, [], p)
  | p, i :: rest =>
    match p.poll l t with
    | some answer => some (answer, i :: rest, p)
    | none => linger l t (p.perform i) rest

/-- A call that waits for the hash. -/
def wait (l : Link) (t : Token) (p : Pipeline) (coming : List Intervention) :
    Option (Except LinkError Hash × List Intervention × Pipeline) :=
  match p.enter t with
  | some answer => some (answer, coming, p)
  | none => linger l t p coming

/-- The form used in logs. -/
def label (p : Pipeline) (l : Link) : String :=
  match p.stateOf l with
  | .pending => "RunningHashLink(pending)"
  | .resolved h => s!"RunningHashLink({h.short})"
  | .released => "RunningHashLink(released)"

end Pipeline

end SealedStream
